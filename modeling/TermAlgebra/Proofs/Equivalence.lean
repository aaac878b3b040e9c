import TermAlgebra.Proofs.Idempotence

/-!
# Substitutions that cannot be told apart

Two substitutions act alike exactly if they bind the same apart from trivial bindings
(`apply_ext_tfae`), they are equivalent exactly if they hold the same bindings in some order
(`equivalent_decides`), and equivalent ones differ in nothing but the order in which things are
listed (`indistinguishable_of_equivalent`).
-/

namespace TermAlgebra

/-!
## Extensionality

Two substitutions act alike on all terms if and only if they hold the same bindings up to order, the
trivial ones left out (`apply_ext_tfae`).  Dropping the trivial bindings is thus a canonical form:
it keeps the action, and the action determines what is left.
-/

namespace Substitution

variable {s s' : Substitution}

/-- Variables tell the action on all terms. -/
theorem apply_congr (h : ∀ v, s.toFun v = s'.toFun v) (t : Term) : s.apply t = s'.apply t := by
  rw [apply_eq_subst, apply_eq_subst, Term.subst_eq_subst_iff]
  exact fun v _ => h v

theorem apply_withoutTrivial (s : Substitution) (t : Term) :
    s.withoutTrivial.apply t = s.apply t :=
  apply_congr (toFun_withoutTrivial s) t

theorem WellShaped.withoutTrivial (h : s.WellShaped) : s.withoutTrivial.WellShaped :=
  h.of_subset List.filter_sublist.subset

/-- Dropping the trivial bindings of a substitution in a store always succeeds, although every
binding that is left is made anew. -/
theorem run_withoutTrivial {store : Store} {id : Nat} (h : (store.substitution id).WellShaped) :
    SubstitutionOperation.withoutTrivial.run store [.substitution id] =
      .ok (.substitution (store.substitution id).withoutTrivial) :=
  copied_eq h.withoutTrivial

/-- Substitutions that act alike, be it on all terms or only on the well-shaped ones, are those that
agree without their trivial bindings.  What is left of a substitution keeps its order and its
action, and the operation that makes it fails on no substitution of well-shaped terms. -/
theorem apply_ext_tfae (s s' : Substitution) :
    [∀ t, s.apply t = s'.apply t,
      ∀ t, t.WellShaped → s.apply t = s'.apply t,
      s.withoutTrivial.equivalent s'.withoutTrivial = true].TFAE ∧
    s.withoutTrivial.bindings = s.bindings.filter (fun b => b.2 ≠ .var b.1) ∧
    (∀ t, s.withoutTrivial.apply t = s.apply t) ∧
    (s.WellShaped → ∀ (store : Store) (id : Nat), store.substitution id = s →
      SubstitutionOperation.withoutTrivial.run store [.substitution id] =
        .ok (.substitution s.withoutTrivial)) := by
  refine ⟨?_, bindings_withoutTrivial s, apply_withoutTrivial s, ?_⟩
  · tfae_have 1 → 2 := fun h t _ => h t
    tfae_have 2 → 3 := by
      intro h
      refine withoutTrivial_equivalent_iff.2 fun v => ?_
      rw [← apply_var, ← apply_var]
      exact h _ (Term.wellShaped_var v)
    tfae_have 3 → 1 := fun h => apply_congr (withoutTrivial_equivalent_iff.1 h)
    tfae_finish
  · rintro h store id rfl
    exact run_withoutTrivial h

/-- `{x -> x, y -> f(x), z -> a}` and `{z -> a, w -> w, y -> f(x)}` act alike. -/
theorem apply_ext_reordered :
    let s : Substitution := ⟨[(⟨"x"⟩, .var ⟨"x"⟩), (⟨"y"⟩, .app ⟨"f", 1⟩ [.var ⟨"x"⟩]),
      (⟨"z"⟩, .const "a")], by decide⟩
    let s' : Substitution := ⟨[(⟨"z"⟩, .const "a"), (⟨"w"⟩, .var ⟨"w"⟩),
      (⟨"y"⟩, .app ⟨"f", 1⟩ [.var ⟨"x"⟩])], by decide⟩
    s.WellShaped ∧ (∀ t, s.apply t = s'.apply t) ∧
      SubstitutionOperation.withoutTrivial.run ⟨[s', s], [], 0⟩ [.substitution 1] =
        .ok (.substitution ⟨[(⟨"y"⟩, .app ⟨"f", 1⟩ [.var ⟨"x"⟩]), (⟨"z"⟩, .const "a")],
          by decide⟩) := by
  intro s s'
  have hs : s.WellShaped := by decide
  have hequiv : s.withoutTrivial.equivalent s'.withoutTrivial = true := by decide
  obtain ⟨htfae, -, -, hrun⟩ := apply_ext_tfae s s'
  exact ⟨hs, (htfae.out 0 2).2 hequiv, hrun hs ⟨[s', s], [], 0⟩ 1 rfl⟩

/-!
## Equivalence

To decide whether two substitutions are equivalent, their sizes are compared and the bindings of the
first are looked up in the second.  The bindings of the second are never gone through.  None is
missed for all that, since no variable is bound twice and the sizes agree: the answer says whether
the two hold the same bindings, in whatever order (`equivalent_decides`), and it does not depend on
which of the two is asked.
-/

variable {v : Var}

theorem lookup_eq_lookup_iff :
    s.lookup v = s'.lookup v ↔ (v ∉ s ∧ v ∉ s') ∨
      ∃ t t', s.lookup v = some t ∧ s'.lookup v = some t' ∧ t.same t' = true := by
  constructor
  · intro h
    by_cases hv : v ∈ s
    · obtain ⟨t, ht⟩ := mem_iff_exists_lookup.1 hv
      exact Or.inr ⟨t, t, ht, h ▸ ht, (Term.same_iff t t).2 rfl⟩
    · have hnone : s'.lookup v = none := h ▸ lookup_eq_none_iff.2 hv
      exact Or.inl ⟨hv, lookup_eq_none_iff.1 hnone⟩
  · rintro (⟨hv, hv'⟩ | ⟨t, t', ht, ht', hsame⟩)
    · rw [lookup_eq_none_iff.2 hv, lookup_eq_none_iff.2 hv']
    · rw [ht, ht', (Term.same_iff t t').1 hsame]

theorem equivalence_equivalent : Equivalence fun s s' : Substitution => s.equivalent s' = true where
  refl _ := equivalent_iff_perm.2 (.refl _)
  symm h := equivalent_iff_perm.2 (equivalent_iff_perm.1 h).symm
  trans h h' := equivalent_iff_perm.2 ((equivalent_iff_perm.1 h).trans (equivalent_iff_perm.1 h'))

theorem equivalent_comm (s s' : Substitution) : s.equivalent s' = s'.equivalent s := by
  rw [Bool.eq_iff_iff]
  exact ⟨equivalence_equivalent.symm, equivalence_equivalent.symm⟩

/-- Equivalence decides whether two substitutions bind the same variables, each to the same term;
which is to say that the bindings of one are those of the other in some order.  So it is an
equivalence relation.  Two substitutions of a store can always be compared, and either of them may
be asked about the other. -/
theorem equivalent_decides :
    (∀ s s' : Substitution,
      [s.equivalent s' = true,
        ∀ v, (v ∉ s ∧ v ∉ s') ∨
          ∃ t t', s.lookup v = some t ∧ s'.lookup v = some t' ∧ t.same t' = true,
        s.bindings.Perm s'.bindings].TFAE) ∧
    Equivalence (fun s s' : Substitution => s.equivalent s' = true) ∧
    ∀ (store : Store) (i j : Nat), ∃ answer,
      SubstitutionOperation.equivalent.run store [.substitution i, .substitution j] =
        .ok (.bool answer) ∧
      SubstitutionOperation.equivalent.run store [.substitution j, .substitution i] =
        .ok (.bool answer) ∧
      (answer = true ↔
        (store.substitution i).bindings.Perm (store.substitution j).bindings) := by
  refine ⟨fun s s' => ?_, equivalence_equivalent, fun store i j => ?_⟩
  · tfae_have 1 ↔ 2 := equivalent_iff.trans (forall_congr' fun v => lookup_eq_lookup_iff)
    tfae_have 1 ↔ 3 := equivalent_iff_perm
    tfae_finish
  · refine ⟨(store.substitution i).equivalent (store.substitution j), rfl, ?_,
      equivalent_iff_perm⟩
    rw [equivalent_comm]
    rfl

/-- All bindings of the first are bindings of the second, but there are fewer of them. -/
example : equivalent ⟨[(⟨"x"⟩, .const "a")], by decide⟩
    ⟨[(⟨"y"⟩, .const "b"), (⟨"x"⟩, .const "a")], by decide⟩ = false := by decide

end Substitution

/-!
## Independence of the order of bindings

Equivalent substitutions, which hold the same bindings in whatever order, cannot be told apart by
what is done with them: not by their action, by composing them, by their properties or by checking
them (`indistinguishable_of_equivalent`).  Only the order of what is listed differs, and with it the
text of the one warning that lists variables.
-/

/-- A diagnostic without the text of the warning that lists the bound variables that come back. -/
def Diagnostic.withoutOverlap (d : Diagnostic String) : Diagnostic String :=
  if d.check = "not_idempotent" then { d with message := "" } else d

namespace Substitution

variable {s s' s₁ s₁' s₂ s₂' : Substitution}

/-! ### Action and composition -/

theorem toFun_of_equivalent (h : s.equivalent s' = true) (v : Var) : s.toFun v = s'.toFun v := by
  rw [toFun, toFun, equivalent_iff.1 h v]

theorem apply_of_equivalent (h : s.equivalent s' = true) (t : Term) : s.apply t = s'.apply t :=
  apply_congr (toFun_of_equivalent h) t

theorem mem_of_equivalent (h : s.equivalent s' = true) (v : Var) : v ∈ s ↔ v ∈ s' := by
  rw [mem_iff_exists_lookup, mem_iff_exists_lookup, equivalent_iff.1 h v]

theorem followedBy_equivalent (h₁ : s₁.equivalent s₁' = true) (h₂ : s₂.equivalent s₂' = true) :
    (s₁.followedBy s₂).equivalent (s₁'.followedBy s₂') = true := by
  have htoFun : ∀ v, (s₁.followedBy s₂).toFun v = (s₁'.followedBy s₂').toFun v := by
    intro v
    rw [toFun_followedBy, toFun_followedBy, toFun_of_equivalent h₁, apply_of_equivalent h₂]
  have hmem : ∀ v, v ∈ s₁.followedBy s₂ ↔ v ∈ s₁'.followedBy s₂' := by
    intro v
    rw [mem_followedBy, mem_followedBy, mem_of_equivalent h₁, mem_of_equivalent h₂,
      toFun_of_equivalent h₁, apply_of_equivalent h₂]
  exact equivalent_iff.2 fun v => (lookup_eq_iff_of_toFun_eq (htoFun v)).2 (hmem v)

/-! ### Properties -/

theorem mem_rangeVariables_of_equivalent (h : s.equivalent s' = true) (v : Var) :
    v ∈ s.rangeVariables ↔ v ∈ s'.rangeVariables := by
  rw [mem_rangeVariables, mem_rangeVariables]
  exact exists_congr fun b => and_congr_left fun _ => (equivalent_iff_perm.1 h).mem_iff

theorem isIdempotent_of_equivalent (h : s.equivalent s' = true) :
    s.isIdempotent = s'.isIdempotent := by
  rw [Bool.eq_iff_iff, isIdempotent_iff, isIdempotent_iff]
  refine forall_congr' fun v => ?_
  rw [mem_of_equivalent h, mem_rangeVariables_of_equivalent h]

/-! ### Diagnostics -/

theorem map_withoutOverlap_overlapWarnings (h : s.equivalent s' = true) :
    s.overlapWarnings.map Diagnostic.withoutOverlap =
      s'.overlapWarnings.map Diagnostic.withoutOverlap := by
  have hempty : s.overlap.isEmpty = s'.overlap.isEmpty := by
    rw [Bool.eq_iff_iff, List.isEmpty_iff, List.isEmpty_iff, overlap_eq_nil_iff,
      overlap_eq_nil_iff, isIdempotent_of_equivalent h]
  rw [overlapWarnings, overlapWarnings, hempty]
  split <;> rfl

theorem diagnostics_perm_of_equivalent {α : Type} [Declarable α] (h : s.equivalent s' = true)
    (sig : Signature α) :
    ((checkSubstitution s sig).diagnostics.map Diagnostic.withoutOverlap).Perm
      ((checkSubstitution s' sig).diagnostics.map Diagnostic.withoutOverlap) := by
  have hperm : s.bindings.Perm s'.bindings := equivalent_iff_perm.1 h
  have hbindings : (s.bindings.flatMap sig.bindingDiagnostics).Perm
      (s'.bindings.flatMap sig.bindingDiagnostics) := hperm.flatMap fun b _ => .refl _
  -- The names are put in order before they are reported, so the warnings about clashes are equal.
  have hclashes : clashNames (s.bindings.flatMap fun b => b.2.constants)
        (s.bindings.flatMap fun b => b.2.nullary) =
      clashNames (s'.bindings.flatMap fun b => b.2.constants)
        (s'.bindings.flatMap fun b => b.2.nullary) :=
    clashNames_congr (fun c => (hperm.flatMap fun b _ => .refl _).mem_iff)
      fun c => (hperm.flatMap fun b _ => .refl _).mem_iff
  rw [checkSubstitution_eq, checkSubstitution_eq, hclashes, List.map_append, List.map_append,
    List.map_append, List.map_append, map_withoutOverlap_overlapWarnings h]
  exact ((hbindings.map _).append_right _).append_right _

/-- Nothing that is done with substitutions tells equivalent ones apart, but for the order in which
bindings, variables and diagnostics are listed. -/
theorem indistinguishable_of_equivalent (α : Type) [Declarable α]
    (h₁ : s₁.equivalent s₁' = true) (h₂ : s₂.equivalent s₂' = true) :
    (∀ t, s₁.apply t = s₁'.apply t) ∧
    (∃ r r', s₁.compose s₂ = .ok r ∧ s₁'.compose s₂' = .ok r' ∧ r.equivalent r' = true) ∧
    s₁.withoutTrivial.equivalent s₁'.withoutTrivial = true ∧
    s₁.isIdempotent = s₁'.isIdempotent ∧
    (∀ v, v ∈ s₁.domain ↔ v ∈ s₁'.domain) ∧
    (∀ v, v ∈ s₁.rangeVariables ↔ v ∈ s₁'.rangeVariables) ∧
    ∀ sig : Signature α,
      ((checkSubstitution s₁ sig).diagnostics.map Diagnostic.withoutOverlap).Perm
        ((checkSubstitution s₁' sig).diagnostics.map Diagnostic.withoutOverlap) := by
  refine ⟨apply_of_equivalent h₁, ?_, ?_, isIdempotent_of_equivalent h₁, mem_of_equivalent h₁,
    mem_rangeVariables_of_equivalent h₁, diagnostics_perm_of_equivalent h₁⟩
  · exact ⟨s₁.followedBy s₂, s₁'.followedBy s₂', compose_eq_ok s₁ s₂, compose_eq_ok s₁' s₂',
      followedBy_equivalent h₁ h₂⟩
  · exact withoutTrivial_equivalent_iff.2 (toFun_of_equivalent h₁)

/-- `{x -> g(y), y -> f(x), z -> z}` in reverse: its variables come back in another order. -/
theorem indistinguishable_reversed :
    let s₁ : Substitution := ⟨[(⟨"x"⟩, .app ⟨"g", 1⟩ [.var ⟨"y"⟩]),
      (⟨"y"⟩, .app ⟨"f", 1⟩ [.var ⟨"x"⟩]), (⟨"z"⟩, .var ⟨"z"⟩)], by decide⟩
    let s₁' : Substitution := ⟨[(⟨"z"⟩, .var ⟨"z"⟩), (⟨"y"⟩, .app ⟨"f", 1⟩ [.var ⟨"x"⟩]),
      (⟨"x"⟩, .app ⟨"g", 1⟩ [.var ⟨"y"⟩])], by decide⟩
    let s₂ : Substitution := ⟨[(⟨"y"⟩, .const "c"), (⟨"w"⟩, .var ⟨"x"⟩)], by decide⟩
    let s₂' : Substitution := ⟨[(⟨"w"⟩, .var ⟨"x"⟩), (⟨"y"⟩, .const "c")], by decide⟩
    (s₁.equivalent s₁' = true ∧ s₂.equivalent s₂' = true) ∧
    s₁.rangeVariables ≠ s₁'.rangeVariables ∧
    (∃ r r', s₁.compose s₂ = .ok r ∧ s₁'.compose s₂' = .ok r' ∧ r.equivalent r' = true) ∧
    ∀ sig : Signature String,
      ((checkSubstitution s₁ sig).diagnostics.map Diagnostic.withoutOverlap).Perm
        ((checkSubstitution s₁' sig).diagnostics.map Diagnostic.withoutOverlap) := by
  intro s₁ s₁' s₂ s₂'
  have h₁ : s₁.equivalent s₁' = true := by decide
  have h₂ : s₂.equivalent s₂' = true := by decide
  obtain ⟨-, hcompose, -, -, -, -, hperm⟩ := indistinguishable_of_equivalent String h₁ h₂
  exact ⟨⟨h₁, h₂⟩, by decide, hcompose, hperm⟩

end Substitution

end TermAlgebra
