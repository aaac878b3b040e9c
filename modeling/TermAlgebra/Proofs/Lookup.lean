import Mathlib.Data.List.Nodup
import Mathlib.Data.List.Perm.Subperm
import TermAlgebra.Substitution

/-!
# Looking up and shape

What a substitution binds is decided by looking variables up, and the terms that come out of it are
as well shaped as those that were put in.
-/

namespace TermAlgebra

/-!
## Substitutions seen through look-up

Looking variables up is the view of a substitution that forgets the order of its bindings.  This
file says what each operation does to `lookup`, to membership and to the map `toFun`, and that
`equivalent` decides whether two substitutions look up alike (`equivalent_iff`).  A substitution
without trivial bindings is determined by its map, up to order (`withoutTrivial_equivalent_iff`).
-/

namespace Substitution

variable {s s' : Substitution} {v : Var} {t : Term}

@[simp] theorem isTrivial_iff {b : Var × Term} : isTrivial b = true ↔ b.2 = .var b.1 := by
  rw [isTrivial, Term.same_iff, eq_comm]

theorem not_isTrivial (b : Var × Term) : (!isTrivial b) = decide (b.2 ≠ .var b.1) := by
  rw [Bool.eq_iff_iff, Bool.not_eq_true', ← Bool.not_eq_true, isTrivial_iff, decide_eq_true_iff]

/-! ### Bound variables -/

theorem mem_iff_exists_lookup : v ∈ s ↔ ∃ t, s.lookup v = some t := by
  rw [← Option.isSome_iff_exists, Option.isSome_iff_ne_none, ne_eq, lookup_eq_none_iff, not_not]

theorem mem_iff_exists_mem : v ∈ s ↔ ∃ t, (v, t) ∈ s.bindings := by
  rw [mem_iff_exists_lookup]
  exact exists_congr fun _ => lookup_eq_some_iff

theorem mem_of_mem_bindings {b : Var × Term} (h : b ∈ s.bindings) : b.1 ∈ s :=
  List.mem_map_of_mem h

theorem mem_of_lookup (h : s.lookup v = some t) : v ∈ s := mem_iff_exists_lookup.2 ⟨t, h⟩

@[simp] theorem contains_iff : s.contains v = true ↔ v ∈ s := by
  rw [contains, decide_eq_true_iff]

theorem not_mem_of_isEmpty (h : s.isEmpty = true) (v : Var) : v ∉ s := by
  rw [mem_iff, domain, List.isEmpty_iff.1 h]
  exact List.not_mem_nil

theorem mem_remove {w : Var} : w ∈ s.remove v ↔ w ∈ s ∧ w ≠ v := by
  rw [mem_iff_exists_mem, mem_iff_exists_mem]
  simp

theorem lookup_eq_toFun_of_mem (h : v ∈ s) : s.lookup v = some (s.toFun v) := by
  obtain ⟨t, ht⟩ := mem_iff_exists_lookup.1 h
  rw [toFun_of_lookup ht, ht]

/-! ### Substitutions that look up alike -/

theorem domain_nodup (s : Substitution) : s.domain.Nodup := s.distinct

theorem bindings_nodup (s : Substitution) : s.bindings.Nodup :=
  List.Nodup.of_map Prod.fst s.distinct

theorem bindings_perm_iff : s.bindings.Perm s'.bindings ↔ ∀ v, s.lookup v = s'.lookup v := by
  rw [List.perm_ext_iff_of_nodup s.bindings_nodup s'.bindings_nodup]
  constructor
  · intro h v
    refine Option.ext fun t => ?_
    rw [lookup_eq_some_iff, lookup_eq_some_iff, h]
  · rintro h ⟨v, t⟩
    rw [← lookup_eq_some_iff, ← lookup_eq_some_iff, h]

theorem binds_iff : s.binds v t = true ↔ s.lookup v = some t := by
  unfold binds
  split
  · next u hu => rw [hu, Term.same_iff, Option.some_inj, eq_comm]
  · next hu => simp [hu]

/-- The scan of one side misses nothing of the other: its bindings are distinct members of an
equally long list. -/
theorem equivalent_iff_perm : s.equivalent s' = true ↔ s.bindings.Perm s'.bindings := by
  rw [equivalent, Bool.and_eq_true, beq_iff_eq, size, size, List.all_eq_true]
  constructor
  · rintro ⟨hsize, hall⟩
    have hsub : s.bindings ⊆ s'.bindings := fun b hb =>
      lookup_eq_some_iff.1 (binds_iff.1 (hall b hb))
    exact (s.bindings_nodup.subperm hsub).perm_of_length_le (Nat.le_of_eq hsize.symm)
  · intro h
    refine ⟨h.length_eq, fun b hb => ?_⟩
    rw [binds_iff, lookup_eq_some_iff]
    exact h.subset hb

theorem equivalent_iff : s.equivalent s' = true ↔ ∀ v, s.lookup v = s'.lookup v :=
  equivalent_iff_perm.trans bindings_perm_iff

/-- Of two substitutions that map a variable alike, one can bind it to itself where the other leaves
it free, and nothing else can differ. -/
theorem lookup_eq_iff_of_toFun_eq (h : s.toFun v = s'.toFun v) :
    s.lookup v = s'.lookup v ↔ (v ∈ s ↔ v ∈ s') := by
  constructor
  · intro hl
    rw [mem_iff_exists_lookup, mem_iff_exists_lookup, hl]
  · intro hm
    by_cases hv : v ∈ s
    · rw [lookup_eq_toFun_of_mem hv, lookup_eq_toFun_of_mem (hm.1 hv), h]
    · rw [lookup_eq_none_iff.2 hv, lookup_eq_none_iff.2 (mt hm.2 hv)]

/-! ### Without trivial bindings -/

theorem bindings_withoutTrivial (s : Substitution) :
    s.withoutTrivial.bindings = s.bindings.filter fun b => b.2 ≠ .var b.1 := by
  rw [withoutTrivial]
  exact List.filter_congr fun b _ => not_isTrivial b

theorem mem_withoutTrivial : v ∈ s.withoutTrivial ↔ s.toFun v ≠ .var v := by
  have hb : v ∈ s.withoutTrivial ↔ ∃ t, s.lookup v = some t ∧ t ≠ .var v := by
    rw [mem_iff_exists_mem]
    simp [withoutTrivial, lookup_eq_some_iff, ← Bool.not_eq_true]
  rw [hb]
  constructor
  · rintro ⟨t, ht, hne⟩
    rwa [toFun_of_lookup ht]
  · intro hne
    have hv : v ∈ s := by
      by_contra hv
      exact hne (toFun_of_not_mem hv)
    exact ⟨s.toFun v, lookup_eq_toFun_of_mem hv, hne⟩

theorem toFun_withoutTrivial (s : Substitution) (v : Var) :
    s.withoutTrivial.toFun v = s.toFun v := by
  by_cases hv : v ∈ s.withoutTrivial
  · obtain ⟨t, ht⟩ := mem_iff_exists_mem.1 hv
    have hs : (v, t) ∈ s.bindings := List.mem_of_mem_filter ht
    rw [toFun_of_lookup (lookup_eq_some_iff.2 ht), toFun_of_lookup (lookup_eq_some_iff.2 hs)]
  · rw [toFun_of_not_mem hv]
    rw [mem_withoutTrivial, not_not] at hv
    exact hv.symm

/-- What is left when trivial bindings are dropped is determined by the map, up to order. -/
theorem withoutTrivial_equivalent_iff :
    s.withoutTrivial.equivalent s'.withoutTrivial = true ↔ ∀ v, s.toFun v = s'.toFun v := by
  rw [equivalent_iff]
  constructor
  · intro h v
    rw [← toFun_withoutTrivial s, ← toFun_withoutTrivial s', toFun, toFun, h]
  · intro h v
    refine (lookup_eq_iff_of_toFun_eq ?_).2 ?_
    · rw [toFun_withoutTrivial, toFun_withoutTrivial, h]
    · rw [mem_withoutTrivial, mem_withoutTrivial, h]

end Substitution

/-!
## Well-shaped results

Applying and changing substitutions keeps everything well shaped: a variable is replaced by a
well-shaped term, and no symbol gets or loses an argument.  So what is built from well-shaped terms
can be built anew, and the validating constructors refuse none of it.
-/

namespace Term

theorem WellShaped.subst {t : Term} {θ : Var → Term} (ht : t.WellShaped)
    (hθ : ∀ v ∈ t.occurrences, (θ v).WellShaped) : (t.subst θ).WellShaped := by
  induction t using inductionOn with
  | var v => simpa using hθ
  | const c => simp
  | app f as ih =>
    rw [wellShaped_app] at ht
    rw [subst_app, wellShaped_app, List.length_map]
    refine ⟨ht.1, fun u hu => ?_⟩
    obtain ⟨a, ha, rfl⟩ := List.mem_map.1 hu
    refine ih a ha (ht.2 a ha) fun v hv => hθ v ?_
    rw [occurrences_app]
    exact List.mem_flatMap.2 ⟨a, ha, hv⟩

theorem WellShaped.rebuild {t : Term} (ht : t.WellShaped) : t.rebuild = .ok t :=
  rebuild_eq_ok_iff.2 ⟨ht, rfl⟩

end Term

theorem Equation.WellShaped.rebuild {e : Equation} (he : e.WellShaped) : e.rebuild = .ok e := by
  rw [Equation.rebuild, he.1.rebuild, he.2.rebuild]
  rfl

namespace Substitution

variable {s s' : Substitution} {v : Var} {t : Term}

theorem wellShaped_iff : s.WellShaped ↔ ∀ b ∈ s.bindings, b.2.WellShaped :=
  List.forall_mem_map

theorem wellShaped_empty : (∅ : Substitution).WellShaped :=
  wellShaped_iff.2 fun _ hb => absurd hb List.not_mem_nil

theorem WellShaped.of_subset (hs : s.WellShaped) (h : s'.bindings ⊆ s.bindings) : s'.WellShaped :=
  wellShaped_iff.2 fun b hb => wellShaped_iff.1 hs b (h hb)

theorem WellShaped.lookup (hs : s.WellShaped) (h : s.lookup v = some t) : t.WellShaped :=
  wellShaped_iff.1 hs (v, t) (lookup_eq_some_iff.1 h)

theorem WellShaped.toFun (hs : s.WellShaped) (v : Var) : (s.toFun v).WellShaped := by
  by_cases hv : v ∈ s
  · exact hs.lookup (lookup_eq_toFun_of_mem hv)
  · rw [toFun_of_not_mem hv]
    exact Term.wellShaped_var v

theorem WellShaped.apply (hs : s.WellShaped) (ht : t.WellShaped) : (s.apply t).WellShaped := by
  rw [apply_eq_subst]
  exact ht.subst fun v _ => hs.toFun v

theorem WellShaped.applyEquation {e : Equation} (hs : s.WellShaped) (he : e.WellShaped) :
    (s.applyEquation e).WellShaped :=
  ⟨hs.apply he.1, hs.apply he.2⟩

theorem WellShaped.add (hs : s.WellShaped) (ht : t.WellShaped) (h : s.add v t = .ok s') :
    s'.WellShaped := by
  rw [wellShaped_iff, (bindings_add h).2]
  intro b hb
  rcases List.mem_append.1 hb with hb | hb
  · exact wellShaped_iff.1 hs b hb
  · rw [List.mem_singleton.1 hb]
    exact ht

theorem WellShaped.remove (hs : s.WellShaped) (v : Var) : (s.remove v).WellShaped :=
  hs.of_subset List.filter_sublist.subset

end Substitution

end TermAlgebra
