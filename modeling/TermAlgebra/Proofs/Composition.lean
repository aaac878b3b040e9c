import TermAlgebra.Operation.Substitution
import TermAlgebra.Proofs.Lookup

/-!
# What composition returns

Composition never fails, and its result is `followedBy`, which lists the bindings outright: those
of the left substitution with the right one applied to their terms, less the trivial ones, and then
those bindings of the right substitution whose variables the left one leaves free.

The stages are taken one by one.  Each removal pass is a filter of the bindings, and the order of
the passes does not matter to the filters but to what they are applied to: `dropShadowed` goes by
the variables bound before any trivial binding was dropped, so the variables of the two parts stay
apart and the last stage finds nothing bound twice.
-/

namespace TermAlgebra

namespace Substitution

/-! ## The stages -/

/-- Where bindings can be added one by one, they can be united. -/
theorem unite_of_addAll {left r : Substitution} {pairs : List (Var × Term)}
    (h : left.addAll pairs = .ok r) : left.unite pairs = .ok r := by
  induction pairs generalizing left with
  | nil => exact h
  | cons b rest ih =>
    obtain ⟨v, t⟩ := b
    rw [addAll] at h
    rw [unite]
    cases hadd : left.add v t with
    | error fault =>
      rw [hadd] at h
      cases h
    | ok s =>
      rw [hadd] at h
      exact ih h

/-- The bindings of `s₁`, each with `s₂` applied to its term. -/
def applied (s₁ s₂ : Substitution) : Substitution where
  bindings := s₁.bindings.map fun b => (b.1, s₂.apply b.2)
  distinct := by
    rw [List.map_map]
    exact s₁.distinct

theorem bindings_applied (s₁ s₂ : Substitution) :
    (s₁.applied s₂).bindings = s₁.bindings.map fun b => (b.1, s₂.apply b.2) := rfl

theorem domain_applied (s₁ s₂ : Substitution) : (s₁.applied s₂).domain = s₁.domain := by
  rw [domain, bindings_applied, List.map_map]
  rfl

theorem mem_applied (s₁ s₂ : Substitution) {v : Var} : v ∈ s₁.applied s₂ ↔ v ∈ s₁ := by
  rw [mem_iff, domain_applied, ← mem_iff]

theorem applyToTerms_eq (s₁ s₂ : Substitution) : applyToTerms s₁ s₂ = .ok (s₁.applied s₂) := by
  obtain ⟨a, ha, hab⟩ := addAll_eq_ok ∅ (s₁.applied s₂).bindings (s₁.applied s₂).distinct
  have heq : a = s₁.applied s₂ := Substitution.ext hab
  exact heq ▸ ha

theorem bindings_dropShadowed (vs : List Var) (right : Substitution) :
    (dropShadowed remove vs right).1.bindings = right.bindings.filter fun b => b.1 ∉ vs := by
  induction vs generalizing right with
  | nil => simp [dropShadowed]
  | cons v vs ih =>
    rw [dropShadowed]
    by_cases hv : right.contains v = true
    · rw [if_pos hv, ih, bindings_remove, List.filter_filter]
      refine List.filter_congr fun b _ => ?_
      simp [Bool.and_comm]
    · rw [if_neg hv, ih]
      refine List.filter_congr fun b hb => ?_
      have hne : b.1 ≠ v := fun h => hv (contains_iff.2 (h ▸ mem_of_mem_bindings hb))
      simp [hne]

theorem bindings_dropTrivial (bs : List (Var × Term)) (left : Substitution) :
    (dropTrivial remove bs left).1.bindings =
      left.bindings.filter fun b => b.1 ∉ (bs.filter fun b => isTrivial b).map Prod.fst := by
  induction bs generalizing left with
  | nil => simp [dropTrivial]
  | cons c bs ih =>
    rw [dropTrivial]
    by_cases hc : isTrivial c = true
    · rw [if_pos hc, ih, bindings_remove, List.filter_filter, List.filter_cons_of_pos hc]
      refine List.filter_congr fun b _ => ?_
      simp [Bool.and_comm]
    · rw [if_neg hc, ih, List.filter_cons_of_neg hc]

/-- The pass that goes through a substitution's own bindings leaves those that are not trivial: the
variable of a trivial binding has no other. -/
theorem bindings_dropTrivial_self (s : Substitution) :
    (dropTrivial remove s.bindings s).1.bindings = s.bindings.filter fun b => !isTrivial b := by
  rw [bindings_dropTrivial]
  refine List.filter_congr fun b hb => ?_
  have hiff : b.1 ∈ (s.bindings.filter fun b => isTrivial b).map Prod.fst ↔ isTrivial b = true := by
    constructor
    · intro h
      obtain ⟨c, hc, hcb⟩ := List.mem_map.1 h
      rw [List.mem_filter] at hc
      rw [List.inj_on_of_nodup_map s.distinct hb hc.1 hcb.symm]
      exact hc.2
    · exact fun h => List.mem_map_of_mem (List.mem_filter.2 ⟨hb, h⟩)
  rw [Bool.eq_iff_iff, decide_eq_true_iff, Bool.not_eq_true', ← Bool.not_eq_true]
  exact not_congr hiff

/-! ## The result -/

/-- The substitution that acts like `s₁` followed by `s₂`, by its bindings. -/
def followedBy (s₁ s₂ : Substitution) : Substitution where
  bindings := (s₁.bindings.map fun b => (b.1, s₂.apply b.2)).filter (fun b => b.2 ≠ .var b.1) ++
    s₂.bindings.filter fun b => b.1 ∉ s₁
  distinct := by
    rw [List.map_append, List.nodup_append]
    have hleft : (((s₁.bindings.map fun b => (b.1, s₂.apply b.2)).filter
        fun b => b.2 ≠ .var b.1).map Prod.fst).Sublist s₁.domain := by
      have := (List.filter_sublist (p := fun b => decide (b.2 ≠ Term.var b.1))
        (l := s₁.bindings.map fun b => (b.1, s₂.apply b.2))).map Prod.fst
      rwa [List.map_map] at this
    refine ⟨s₁.distinct.sublist hleft, s₂.distinct.sublist (List.filter_sublist.map _), ?_⟩
    rintro v hv w hw rfl
    obtain ⟨b, hb, rfl⟩ := List.mem_map.1 hw
    exact of_decide_eq_true (List.mem_filter.1 hb).2 (hleft.subset hv)

theorem bindings_followedBy (s₁ s₂ : Substitution) :
    (s₁.followedBy s₂).bindings =
      (s₁.bindings.map fun b => (b.1, s₂.apply b.2)).filter (fun b => b.2 ≠ .var b.1) ++
        s₂.bindings.filter fun b => b.1 ∉ s₁ := rfl

theorem mem_bindings_followedBy {s₁ s₂ : Substitution} {v : Var} {u : Term} :
    (v, u) ∈ (s₁.followedBy s₂).bindings ↔
      (∃ t, s₁.lookup v = some t ∧ u = s₂.apply t ∧ u ≠ .var v) ∨
        (v ∉ s₁ ∧ s₂.lookup v = some u) := by
  rw [bindings_followedBy, List.mem_append, List.mem_filter, List.mem_filter, decide_eq_true_iff,
    decide_eq_true_iff]
  refine or_congr ⟨?_, ?_⟩ ⟨?_, ?_⟩
  · rintro ⟨hu, hne⟩
    obtain ⟨⟨w, t⟩, hb, heq⟩ := List.mem_map.1 hu
    obtain ⟨rfl, rfl⟩ := Prod.mk.inj heq
    exact ⟨t, lookup_eq_some_iff.2 hb, rfl, hne⟩
  · rintro ⟨t, ht, rfl, hne⟩
    exact ⟨List.mem_map.2 ⟨(v, t), lookup_eq_some_iff.1 ht, rfl⟩, hne⟩
  · exact fun h => ⟨h.2, lookup_eq_some_iff.2 h.1⟩
  · exact fun h => ⟨lookup_eq_some_iff.1 h.2, h.1⟩

/-- A variable of the left substitution is bound unless its term has become the variable itself,
even if the right one binds it. -/
theorem mem_followedBy {s₁ s₂ : Substitution} {v : Var} :
    v ∈ s₁.followedBy s₂ ↔
      (v ∈ s₁ ∧ s₂.apply (s₁.toFun v) ≠ .var v) ∨ (v ∉ s₁ ∧ v ∈ s₂) := by
  rw [mem_iff_exists_mem]
  constructor
  · rintro ⟨u, hu⟩
    rcases mem_bindings_followedBy.1 hu with ⟨t, ht, rfl, hne⟩ | ⟨hv, hu⟩
    · exact Or.inl ⟨mem_of_lookup ht, by rwa [toFun_of_lookup ht]⟩
    · exact Or.inr ⟨hv, mem_of_lookup hu⟩
  · rintro (⟨hv, hne⟩ | ⟨hv, hv₂⟩)
    · exact ⟨_, mem_bindings_followedBy.2 (Or.inl ⟨_, lookup_eq_toFun_of_mem hv, rfl, hne⟩)⟩
    · exact ⟨_, mem_bindings_followedBy.2 (Or.inr ⟨hv, lookup_eq_toFun_of_mem hv₂⟩)⟩

/-- Without bindings on the left all bindings of the right are listed. -/
theorem followedBy_of_isEmpty {s₁ : Substitution} (h : s₁.isEmpty = true) (s₂ : Substitution) :
    s₁.followedBy s₂ = s₂ := by
  apply Substitution.ext
  rw [bindings_followedBy, List.isEmpty_iff.1 h, List.map_nil, List.filter_nil, List.nil_append]
  exact List.filter_eq_self.2 fun b _ => decide_eq_true (not_mem_of_isEmpty h b.1)

/-- Composition of a substitution that has bindings, whatever its removal step does: the two passes
start from what there was before anything was removed. -/
theorem composeWith_eq (drop : Substitution → Var → Substitution) {s₁ : Substitution}
    (h : s₁.isEmpty ≠ true) (s₂ : Substitution) :
    composeWith drop s₁ s₂ =
      ((dropTrivial drop (s₁.applied s₂).bindings (s₁.applied s₂)).1.unite
        (dropShadowed drop s₁.domain s₂).1.bindings).map fun r =>
          (r, .appliedRight (s₁.applied s₂) :: (dropShadowed drop s₁.domain s₂).2 ++
            (dropTrivial drop (s₁.applied s₂).bindings (s₁.applied s₂)).2 ++
            [.finished s₁ s₂ r]) := by
  rw [composeWith, if_neg h, applyToTerms_eq]
  simp only [bind, Except.bind, domain_applied]
  cases (dropTrivial drop (s₁.applied s₂).bindings (s₁.applied s₂)).1.unite
    (dropShadowed drop s₁.domain s₂).1.bindings <;> rfl

/-- Nothing is bound twice once the shadowed variables are gone, so no addition fails. -/
theorem unite_dropped (s₁ s₂ : Substitution) :
    (dropTrivial remove (s₁.applied s₂).bindings (s₁.applied s₂)).1.unite
      (dropShadowed remove s₁.domain s₂).1.bindings = .ok (s₁.followedBy s₂) := by
  have hleft : (dropTrivial remove (s₁.applied s₂).bindings (s₁.applied s₂)).1.bindings =
      (s₁.bindings.map fun b => (b.1, s₂.apply b.2)).filter fun b => b.2 ≠ .var b.1 := by
    rw [bindings_dropTrivial_self, bindings_applied]
    exact List.filter_congr fun b _ => not_isTrivial b
  have hright : (dropShadowed remove s₁.domain s₂).1.bindings =
      s₂.bindings.filter fun b => b.1 ∉ s₁ := bindings_dropShadowed s₁.domain s₂
  obtain ⟨r, hr, hrb⟩ := addAll_eq_ok
    (dropTrivial remove (s₁.applied s₂).bindings (s₁.applied s₂)).1
    (dropShadowed remove s₁.domain s₂).1.bindings (by
      rw [domain, ← List.map_append, hleft, hright]
      exact (s₁.followedBy s₂).distinct)
  have hresult : r = s₁.followedBy s₂ :=
    Substitution.ext (by rw [hrb, hleft, hright, bindings_followedBy])
  rw [unite_of_addAll hr, hresult]

theorem composeTraced_eq_ok (s₁ s₂ : Substitution) :
    ∃ trace, composeTraced s₁ s₂ = .ok (s₁.followedBy s₂, trace) := by
  by_cases hempty : s₁.isEmpty = true
  · rw [composeTraced, composeWith, if_pos hempty, followedBy_of_isEmpty hempty]
    exact ⟨[], rfl⟩
  · rw [composeTraced, composeWith_eq remove hempty, unite_dropped]
    exact ⟨_, rfl⟩

theorem compose_eq_ok (s₁ s₂ : Substitution) : s₁.compose s₂ = .ok (s₁.followedBy s₂) := by
  obtain ⟨trace, h⟩ := composeTraced_eq_ok s₁ s₂
  rw [compose, h]
  rfl

theorem WellShaped.applied {s₁ s₂ : Substitution} (h₁ : s₁.WellShaped) (h₂ : s₂.WellShaped) :
    (s₁.applied s₂).WellShaped := by
  rw [wellShaped_iff, bindings_applied]
  intro b hb
  obtain ⟨c, hc, rfl⟩ := List.mem_map.1 hb
  exact h₂.apply (wellShaped_iff.1 h₁ c hc)

theorem WellShaped.followedBy {s₁ s₂ : Substitution} (h₁ : s₁.WellShaped) (h₂ : s₂.WellShaped) :
    (s₁.followedBy s₂).WellShaped := by
  rw [wellShaped_iff, bindings_followedBy, ← bindings_applied]
  intro b hb
  rcases List.mem_append.1 hb with hb | hb
  · exact wellShaped_iff.1 (h₁.applied h₂) b (List.mem_of_mem_filter hb)
  · exact wellShaped_iff.1 h₂ b (List.mem_of_mem_filter hb)

/-! ## The operations -/

/-- A well-shaped substitution is built anew and handed back as it is. -/
theorem copied_eq {s : Substitution} (h : s.WellShaped) :
    SubstitutionOperation.copied s = .ok (.substitution s) := by
  rw [SubstitutionOperation.copied, rebuild_eq_ok h]
  rfl

/-- Two substitutions of a store are composed in any way, and what comes out is handed back as it is
if it is well shaped. -/
theorem composition_eq {store : Store}
    {compose : Substitution → Substitution → Except Fault (Substitution × List Trace)} {i j : Nat}
    (h : ∀ p, compose (store.substitution i) (store.substitution j) = .ok p → p.1.WellShaped) :
    SubstitutionOperation.composition store compose (.substitution i) (.substitution j) =
      (compose (store.substitution i) (store.substitution j)).map fun p => .composed p.1 p.2 := by
  simp only [SubstitutionOperation.composition, Value.expectSubstitution, bind, Except.bind]
  cases hp : compose (store.substitution i) (store.substitution j) with
  | error fault => rfl
  | ok p =>
    simp only [rebuild_eq_ok (h p hp)]
    rfl

theorem run_compose {store : Store} {i j : Nat} (hi : (store.substitution i).WellShaped)
    (hj : (store.substitution j).WellShaped) :
    ∀ op ∈ [SubstitutionOperation.compose, .composeMethod],
      op.run store [.substitution i, .substitution j] =
        ((store.substitution i).composeTraced (store.substitution j)).map fun p =>
          .composed p.1 p.2 := by
  have hshape : ∀ p, (store.substitution i).composeTraced (store.substitution j) = .ok p →
      p.1.WellShaped := by
    intro p hp
    obtain ⟨trace, htrace⟩ := composeTraced_eq_ok (store.substitution i) (store.substitution j)
    rw [htrace] at hp
    cases hp
    exact hi.followedBy hj
  exact List.forall_mem_cons.2
    ⟨composition_eq hshape, List.forall_mem_singleton.2 (composition_eq hshape)⟩

theorem run_compose_eq_ok {store : Store} {i j : Nat} (hi : (store.substitution i).WellShaped)
    (hj : (store.substitution j).WellShaped) :
    ∀ op ∈ [SubstitutionOperation.compose, .composeMethod], ∃ trace,
      op.run store [.substitution i, .substitution j] =
        .ok (.composed ((store.substitution i).followedBy (store.substitution j)) trace) := by
  intro op hop
  obtain ⟨trace, htrace⟩ := composeTraced_eq_ok (store.substitution i) (store.substitution j)
  refine ⟨trace, ?_⟩
  rw [run_compose hi hj op hop, htrace]
  rfl

/-- Composition returns, whatever is composed, and this is what it returns.  Two well-shaped
substitutions of a store, which may be one and the same, are composed by either operation, and the
result passes through the constructors unchanged. -/
theorem compose_bindings (s₁ s₂ : Substitution) :
    ∃ r, s₁.compose s₂ = .ok r ∧
      r.bindings = (s₁.bindings.map fun b => (b.1, s₂.apply b.2)).filter
          (fun b => b.2 ≠ .var b.1) ++ s₂.bindings.filter (fun b => b.1 ∉ s₁) ∧
      (∀ v t, (v, t) ∈ s₁.bindings → s₂.apply t = .var v → v ∉ r) ∧
      (∀ v, (v, .var v) ∈ s₂.bindings → v ∉ s₁ → (v, .var v) ∈ r.bindings) ∧
      (s₁.isEmpty = true → r = s₂) ∧
      (s₁.WellShaped → s₂.WellShaped → ∀ (store : Store) (i j : Nat),
        store.substitution i = s₁ → store.substitution j = s₂ →
          ∀ op ∈ [SubstitutionOperation.compose, .composeMethod], ∃ trace,
            op.run store [.substitution i, .substitution j] = .ok (.composed r trace)) := by
  refine ⟨s₁.followedBy s₂, compose_eq_ok s₁ s₂, rfl, ?_, ?_, ?_, ?_⟩
  · intro v t ht htrivial hv
    have hs₁ : v ∈ s₁ := mem_of_mem_bindings ht
    rcases mem_followedBy.1 hv with ⟨-, hne⟩ | ⟨hfree, -⟩
    · rw [toFun_of_lookup (lookup_eq_some_iff.2 ht)] at hne
      exact hne htrivial
    · exact hfree hs₁
  · exact fun v hv hfree =>
      mem_bindings_followedBy.2 (Or.inr ⟨hfree, lookup_eq_some_iff.2 hv⟩)
  · exact fun hempty => followedBy_of_isEmpty hempty s₂
  · rintro h₁ h₂ store i j rfl rfl
    exact run_compose_eq_ok h₁ h₂

/-- `{x -> y, z -> f(y)}` followed by `{y -> x, x -> a, w -> w}`: the binding of `x` becomes trivial
and leaves `x` free. -/
theorem compose_bindings_trivial_left :
    ∃ r, compose ⟨[(⟨"x"⟩, .var ⟨"y"⟩), (⟨"z"⟩, .app ⟨"f", 1⟩ [.var ⟨"y"⟩])], by decide⟩
        ⟨[(⟨"y"⟩, .var ⟨"x"⟩), (⟨"x"⟩, .const "a"), (⟨"w"⟩, .var ⟨"w"⟩)], by decide⟩ = .ok r ∧
      r.bindings = [(⟨"z"⟩, .app ⟨"f", 1⟩ [.var ⟨"x"⟩]), (⟨"y"⟩, .var ⟨"x"⟩),
        (⟨"w"⟩, .var ⟨"w"⟩)] := by
  obtain ⟨r, hr, hb, -⟩ := compose_bindings
    ⟨[(⟨"x"⟩, .var ⟨"y"⟩), (⟨"z"⟩, .app ⟨"f", 1⟩ [.var ⟨"y"⟩])], by decide⟩
    ⟨[(⟨"y"⟩, .var ⟨"x"⟩), (⟨"x"⟩, .const "a"), (⟨"w"⟩, .var ⟨"w"⟩)], by decide⟩
  exact ⟨r, hr, hb.trans (by decide)⟩

end Substitution

end TermAlgebra
