import TermAlgebra.Proofs.Composition

/-!
# Action of substitutions

Substitutions act on terms one after the other as their composition does (`apply_compose`), and what
occurs in the result is told by what occurs in the term and in the bound terms
(`mem_occurrences_apply`).
-/

namespace TermAlgebra

/-!
## The laws of composition

The map of a composition is the composition of the maps (`toFun_followedBy`), and from this follow
the action on terms and on equations (`apply_compose`) and associativity as far as it goes
(`compose_assoc`).

Composing three substitutions in either order gives the same map, so the two results agree once
trivial bindings are dropped.  They differ in at most that one of them binds a variable to itself:
if the first two substitutions take `v` back to `v`, the inner composition on the left forgets `v`,
and a trivial binding that the third has for `v` then survives; on the right `v` is bound by the
first substitution to the end, and its trivial binding is dropped.
-/

namespace Substitution

/-! ### Action -/

theorem apply_var (s : Substitution) (v : Var) : s.apply (.var v) = s.toFun v := by
  rw [apply_eq_subst, Term.subst_var]

theorem toFun_followedBy (s₁ s₂ : Substitution) (v : Var) :
    (s₁.followedBy s₂).toFun v = s₂.apply (s₁.toFun v) := by
  by_cases hv : v ∈ s₁.followedBy s₂
  · obtain ⟨u, hu⟩ := mem_iff_exists_mem.1 hv
    rw [toFun_of_lookup (lookup_eq_some_iff.2 hu)]
    rcases mem_bindings_followedBy.1 hu with ⟨t, ht, rfl, -⟩ | ⟨hv₁, hu⟩
    · rw [toFun_of_lookup ht]
    · rw [toFun_of_not_mem hv₁, apply_var, toFun_of_lookup hu]
  · rw [toFun_of_not_mem hv]
    rw [mem_followedBy, not_or, not_and, not_and] at hv
    by_cases hv₁ : v ∈ s₁
    · exact (not_not.1 (hv.1 hv₁)).symm
    · rw [toFun_of_not_mem hv₁, apply_var, toFun_of_not_mem (hv.2 hv₁)]

theorem apply_followedBy (s₁ s₂ : Substitution) (t : Term) :
    (s₁.followedBy s₂).apply t = s₂.apply (s₁.apply t) := by
  rw [apply_eq_subst, apply_eq_subst s₂, apply_eq_subst s₁, Term.subst_subst]
  congr 1
  funext v
  rw [toFun_followedBy, apply_eq_subst]

/-- A composition acts like its parts one after the other, on terms and on equations, where it acts
on both sides, and what it makes of well-shaped terms passes through the constructors. -/
theorem apply_compose (s₁ s₂ : Substitution) :
    ∃ r, s₁.compose s₂ = .ok r ∧
      (∀ t, r.apply t = s₂.apply (s₁.apply t)) ∧
      (∀ e, r.applyEquation e = s₂.applyEquation (s₁.applyEquation e) ∧
        r.applyEquation e = ⟨s₂.apply (s₁.apply e.lhs), s₂.apply (s₁.apply e.rhs)⟩) ∧
      (s₁.WellShaped → s₂.WellShaped → r.rebuild = .ok r ∧
        (∀ t, t.WellShaped → (r.apply t).rebuild = .ok (r.apply t)) ∧
        ∀ e, e.WellShaped → (r.applyEquation e).rebuild = .ok (r.applyEquation e)) := by
  refine ⟨s₁.followedBy s₂, compose_eq_ok s₁ s₂, apply_followedBy s₁ s₂, fun e => ?_,
    fun h₁ h₂ => ?_⟩
  · rw [applyEquation, apply_followedBy, apply_followedBy]
    exact ⟨rfl, rfl⟩
  · have hr := h₁.followedBy h₂
    exact ⟨rebuild_eq_ok hr, fun t ht => (hr.apply ht).rebuild,
      fun e he => (hr.applyEquation he).rebuild⟩

/-- `{x -> f(x), y -> x}` composed with itself. -/
theorem apply_compose_self :
    let s : Substitution :=
      ⟨[(⟨"x"⟩, .app ⟨"f", 1⟩ [.var ⟨"x"⟩]), (⟨"y"⟩, .var ⟨"x"⟩)], by decide⟩
    s.WellShaped ∧ ∃ r, s.compose s = .ok r ∧ r.rebuild = .ok r ∧
      r.apply (.app ⟨"g", 2⟩ [.var ⟨"x"⟩, .var ⟨"y"⟩]) =
        .app ⟨"g", 2⟩ [.app ⟨"f", 1⟩ [.app ⟨"f", 1⟩ [.var ⟨"x"⟩]], .app ⟨"f", 1⟩ [.var ⟨"x"⟩]] := by
  intro s
  have hs : s.WellShaped := by decide
  obtain ⟨r, hr, happly, -, hshape⟩ := apply_compose s s
  exact ⟨hs, r, hr, (hshape hs hs).1, (happly _).trans (by decide)⟩

/-! ### Associativity -/

theorem followedBy_empty (s : Substitution) : s.followedBy ∅ = s.withoutTrivial := by
  have hmap : (s.bindings.map fun b => (b.1, (∅ : Substitution).apply b.2)) = s.bindings :=
    List.map_id' s.bindings
  apply Substitution.ext
  rw [bindings_followedBy, hmap, bindings_empty, List.filter_nil, List.append_nil,
    bindings_withoutTrivial]

theorem toFun_followedBy_assoc (s₁ s₂ s₃ : Substitution) (v : Var) :
    ((s₁.followedBy s₂).followedBy s₃).toFun v = (s₁.followedBy (s₂.followedBy s₃)).toFun v := by
  rw [toFun_followedBy, toFun_followedBy, toFun_followedBy, apply_followedBy]

theorem lookup_eq_some_var_iff {s : Substitution} {v : Var} :
    s.lookup v = some (.var v) ↔ v ∈ s ∧ s.toFun v = .var v := by
  constructor
  · exact fun h => ⟨mem_of_lookup h, toFun_of_lookup h⟩
  · rintro ⟨hv, h⟩
    rw [lookup_eq_toFun_of_mem hv, h]

/-- The variables that one nesting binds and the other does not. -/
theorem mem_followedBy_assoc_iff {s₁ s₂ s₃ : Substitution} {v : Var} :
    (v ∈ (s₁.followedBy s₂).followedBy s₃ ↔ v ∈ s₁.followedBy (s₂.followedBy s₃)) ↔
      ¬ (v ∈ s₁ ∧ s₂.apply (s₁.toFun v) = .var v ∧ s₃.lookup v = some (.var v)) := by
  rw [mem_followedBy, mem_followedBy, mem_followedBy, mem_followedBy, toFun_followedBy,
    apply_followedBy]
  by_cases hv₁ : v ∈ s₁
  · by_cases htrivial : s₂.apply (s₁.toFun v) = .var v
    -- The inner composition on the left has forgotten `v`, so there all depends on `s₃`.
    · have hfree : v ∉ s₃ → s₃.toFun v = .var v := toFun_of_not_mem
      simp only [hv₁, htrivial, apply_var, lookup_eq_some_var_iff, not_true_eq_false, true_and,
        false_and, or_false, not_false_eq_true, false_or, and_false, ne_eq]
      by_cases hv₃ : v ∈ s₃
      · simp [hv₃]
      · simp [hv₃, hfree hv₃]
    · simp [hv₁, htrivial]
  · rw [toFun_of_not_mem hv₁, apply_var]
    by_cases hv₂ : v ∈ s₂
    · simp [hv₁, hv₂]
    · simp [hv₁, hv₂]

/-- Composing three substitutions in either order gives the same up to trivial bindings, and the
same altogether unless some variable is bound by the first, taken back to itself by the second and
bound to itself by the third.  The empty substitution changes nothing on the left and drops the
trivial bindings on the right. -/
theorem compose_assoc (s₁ s₂ s₃ : Substitution) :
    (∃ l r, (do (← s₁.compose s₂).compose s₃) = .ok l ∧
      (do s₁.compose (← s₂.compose s₃)) = .ok r ∧
      l.withoutTrivial.equivalent r.withoutTrivial = true ∧
      (l.equivalent r = true ↔
        ¬ ∃ v t, s₁.lookup v = some t ∧ s₃.lookup v = some (.var v) ∧ s₂.apply t = .var v)) ∧
    (∃ r, (∅ : Substitution).compose s₁ = .ok r ∧ r.bindings = s₁.bindings) ∧
    ∃ r, s₁.compose ∅ = .ok r ∧ r.bindings = s₁.withoutTrivial.bindings := by
  refine ⟨⟨(s₁.followedBy s₂).followedBy s₃, s₁.followedBy (s₂.followedBy s₃), ?_, ?_, ?_, ?_⟩,
    ⟨s₁, ?_, rfl⟩, ⟨s₁.withoutTrivial, ?_, rfl⟩⟩
  · rw [compose_eq_ok]
    exact compose_eq_ok _ s₃
  · rw [compose_eq_ok]
    exact compose_eq_ok s₁ _
  · exact withoutTrivial_equivalent_iff.2 (toFun_followedBy_assoc s₁ s₂ s₃)
  · rw [equivalent_iff]
    calc (∀ v, ((s₁.followedBy s₂).followedBy s₃).lookup v =
            (s₁.followedBy (s₂.followedBy s₃)).lookup v)
        ↔ ∀ v, ¬ (v ∈ s₁ ∧ s₂.apply (s₁.toFun v) = .var v ∧ s₃.lookup v = some (.var v)) :=
          forall_congr' fun v => (lookup_eq_iff_of_toFun_eq
            (toFun_followedBy_assoc s₁ s₂ s₃ v)).trans mem_followedBy_assoc_iff
      _ ↔ ¬ ∃ v t, s₁.lookup v = some t ∧ s₃.lookup v = some (.var v) ∧ s₂.apply t = .var v := by
          rw [not_exists]
          refine forall_congr' fun v => not_congr ⟨?_, ?_⟩
          · rintro ⟨hv, htrivial, h₃⟩
            exact ⟨s₁.toFun v, lookup_eq_toFun_of_mem hv, h₃, htrivial⟩
          · rintro ⟨t, ht, h₃, htrivial⟩
            exact ⟨mem_of_lookup ht, by rwa [toFun_of_lookup ht], h₃⟩
  · rw [compose_eq_ok, followedBy_of_isEmpty rfl]
  · rw [compose_eq_ok, followedBy_empty]

end Substitution

/-!
## Occurrences of variables

The variables of a term after a substitution are those of the terms put in (`occurrences_subst`), so
a substitution leaves a term as it is exactly if it maps every variable in it to itself
(`apply_eq_self_iff`).  A bound variable is gone from all results if it is not brought back by a
bound term (`not_mem_occurrences_apply`).
-/

namespace Term

theorem mem_vars {t : Term} {v : Var} : v ∈ t.vars ↔ v ∈ t.occurrences := by
  rw [vars, List.mem_eraseDups]

theorem isGround_iff {t : Term} : t.isGround = true ↔ t.occurrences = [] := by
  rw [isGround, List.isEmpty_iff, List.eq_nil_iff_forall_not_mem, List.eq_nil_iff_forall_not_mem]
  simp only [mem_vars]

theorem not_isGround_var (v : Var) : (var v).isGround ≠ true := by
  rw [ne_eq, isGround_iff, occurrences_var]
  exact List.cons_ne_nil v []

theorem isGround_app {f : Symbol} {as : List Term} :
    (app f as).isGround = true ↔ ∀ a ∈ as, a.isGround = true := by
  simp only [isGround_iff, occurrences_app, List.flatMap_eq_nil_iff]

theorem occurrences_subst (θ : Var → Term) (t : Term) :
    (t.subst θ).occurrences = t.occurrences.flatMap fun v => (θ v).occurrences := by
  induction t using inductionOn with
  | var v => simp
  | const c => simp
  | app f as ih =>
    rw [subst_app, occurrences_app, occurrences_app, List.flatMap_map, List.flatMap_assoc]
    exact List.flatMap_congr ih

theorem subst_eq_self_iff {θ : Var → Term} {t : Term} :
    t.subst θ = t ↔ ∀ v ∈ t.occurrences, θ v = .var v := by
  have h : t.subst θ = t.subst .var ↔ ∀ v ∈ t.occurrences, θ v = .var v := subst_eq_subst_iff
  rwa [subst_var_self] at h

end Term

namespace Substitution

variable {s : Substitution} {v w : Var} {t : Term}

/-! ### Results -/

theorem apply_eq_self_iff : s.apply t = t ↔ ∀ v ∈ t.occurrences, s.toFun v = .var v := by
  rw [apply_eq_subst, Term.subst_eq_self_iff]

theorem mem_occurrences_apply :
    w ∈ (s.apply t).occurrences ↔ ∃ v ∈ t.occurrences, w ∈ (s.toFun v).occurrences := by
  rw [apply_eq_subst, Term.occurrences_subst, List.mem_flatMap]

/-! ### Bound terms -/

theorem mem_rangeVariables :
    v ∈ s.rangeVariables ↔ ∃ b ∈ s.bindings, v ∈ b.2.occurrences := by
  rw [rangeVariables, terms, List.flatMap_map, List.mem_eraseDups, List.mem_flatMap]
  simp only [Term.mem_vars]

theorem mem_rangeVariables_of_lookup (h : s.lookup v = some t) (hw : w ∈ t.occurrences) :
    w ∈ s.rangeVariables :=
  mem_rangeVariables.2 ⟨(v, t), lookup_eq_some_iff.1 h, hw⟩

/-- A variable in a result was free and stayed, or a bound term brought it in. -/
theorem mem_or_mem_rangeVariables_of_mem_apply (h : w ∈ (s.apply t).occurrences) :
    (w ∈ t.occurrences ∧ w ∉ s) ∨ w ∈ s.rangeVariables := by
  obtain ⟨v, hv, hw⟩ := mem_occurrences_apply.1 h
  by_cases hs : v ∈ s
  · exact Or.inr (mem_rangeVariables_of_lookup (lookup_eq_toFun_of_mem hs) hw)
  · rw [toFun_of_not_mem hs, Term.occurrences_var, List.mem_singleton] at hw
    rw [hw]
    exact Or.inl ⟨hv, hs⟩

theorem not_mem_occurrences_apply (hv : v ∈ s) (hrange : v ∉ s.rangeVariables) (t : Term) :
    v ∉ (s.apply t).occurrences := by
  intro h
  rcases mem_or_mem_rangeVariables_of_mem_apply h with ⟨-, hfree⟩ | h
  · exact hfree hv
  · exact hrange h

end Substitution

end TermAlgebra
