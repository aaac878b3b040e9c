import TermAlgebra.Proofs.Composition

/-!
# What the last stage of composition protects against

If the removal step does nothing, both passes hand on what they were given, and the last stage adds
all bindings of the right substitution to all those of the left one.  It is refused at the first
variable of the right one that the left one binds (`composeKeeping_of_find`); if there is none,
nothing is lost (`composeKeeping_of_find_none`).
-/

namespace TermAlgebra

namespace Substitution

variable {s₁ s₂ : Substitution} {v : Var}

/-! ## Passes that remove nothing -/

theorem dropShadowed_keeping (vs : List Var) (right : Substitution) :
    (dropShadowed (fun s _ => s) vs right).1 = right := by
  induction vs with
  | nil => rfl
  | cons v vs ih =>
    rw [dropShadowed]
    split <;> exact ih

theorem dropTrivial_keeping (bs : List (Var × Term)) (left : Substitution) :
    (dropTrivial (fun s _ => s) bs left).1 = left := by
  induction bs with
  | nil => rfl
  | cons b bs ih =>
    rw [dropTrivial]
    split <;> exact ih

/-! ## The last stage -/

/-- Bindings that can be added do not change what is refused after them. -/
theorem unite_append {left mid : Substitution} {pairs : List (Var × Term)}
    (h : left.unite pairs = .ok mid) (rest : List (Var × Term)) :
    left.unite (pairs ++ rest) = mid.unite rest := by
  induction pairs generalizing left with
  | nil =>
    cases h
    rfl
  | cons b pairs ih =>
    obtain ⟨v, t⟩ := b
    rw [unite] at h
    rw [List.cons_append, unite]
    cases hadd : left.add v t with
    | error fault =>
      rw [hadd] at h
      cases h
    | ok s =>
      rw [hadd] at h
      exact ih h

theorem unite_of_mem (hv : v ∈ s₁) (t : Term) (rest : List (Var × Term)) :
    s₁.unite ((v, t) :: rest) = .error (.boundTwice v) := by
  rw [unite, add, dif_pos hv]

/-- Bindings of variables that are not bound yet can all be added, as long as they bind no variable
twice themselves. -/
theorem unite_of_not_mem {pairs : List (Var × Term)} (hpairs : (pairs.map Prod.fst).Nodup)
    (hfree : ∀ w ∈ pairs.map Prod.fst, w ∉ s₁) :
    ∃ r, s₁.unite pairs = .ok r ∧ r.bindings = s₁.bindings ++ pairs := by
  obtain ⟨r, hr, hb⟩ := addAll_eq_ok s₁ pairs
    (s₁.domain_nodup.append hpairs fun w hw hw' => hfree w hw' hw)
  exact ⟨r, unite_of_addAll hr, hb⟩

/-- The last stage stops at the first variable that is bound already. -/
theorem unite_of_find (h : s₂.domain.find? (· ∈ s₁) = some v) :
    s₁.unite s₂.bindings = .error (.boundTwice v) := by
  obtain ⟨hv, before, after, hdomain, hbefore⟩ := List.find?_eq_some_iff_append.1 h
  obtain ⟨before, rest, hbindings, rfl, hrest⟩ := List.map_eq_append_iff.1 hdomain
  obtain ⟨⟨w, t⟩, after, rfl, rfl, rfl⟩ := List.map_eq_cons_iff.1 hrest
  -- All bindings before that of `w` are added, and `w` was bound before them.
  have hdistinct := s₂.domain_nodup
  rw [hdomain, List.nodup_append] at hdistinct
  obtain ⟨mid, hmid, hb⟩ := unite_of_not_mem hdistinct.1 fun u hu => by simpa using hbefore u hu
  have hw : w ∈ mid := by
    rw [mem_iff, domain, hb, List.map_append]
    exact List.mem_append_left _ (of_decide_eq_true hv)
  rw [hbindings, unite_append hmid, unite_of_mem hw]

/-! ## Composition -/

theorem composeKeeping_of_find (h : s₂.domain.find? (· ∈ s₁) = some v) :
    s₁.composeKeeping s₂ = .error (.boundTwice v) := by
  have hempty : s₁.isEmpty ≠ true := fun hempty =>
    not_mem_of_isEmpty hempty v (by simpa using List.find?_some h)
  have hunite : (s₁.applied s₂).unite s₂.bindings = .error (.boundTwice v) :=
    unite_of_find (by simpa only [mem_applied] using h)
  rw [composeKeeping, composeWith_eq _ hempty, dropShadowed_keeping, dropTrivial_keeping, hunite]
  rfl

theorem composeKeeping_of_find_none (h : s₂.domain.find? (· ∈ s₁) = none) :
    ∃ r trace, s₁.composeKeeping s₂ = .ok (r, trace) ∧
      r.bindings = (s₁.bindings.map fun b => (b.1, s₂.apply b.2)) ++ s₂.bindings := by
  by_cases hempty : s₁.isEmpty = true
  · refine ⟨s₂, [], ?_, ?_⟩
    · rw [composeKeeping, composeWith, if_pos hempty]
    · rw [List.isEmpty_iff.1 hempty, List.map_nil, List.nil_append]
  · obtain ⟨r, hr, hb⟩ := unite_of_not_mem s₂.distinct fun w hw => by
      rw [mem_applied s₁ s₂]
      simpa using List.find?_eq_none.1 h w hw
    rw [composeKeeping, composeWith_eq _ hempty, dropShadowed_keeping, dropTrivial_keeping, hr]
    exact ⟨r, _, rfl, hb⟩

theorem find_eq_none_iff : s₂.domain.find? (· ∈ s₁) = none ↔ ∀ w ∈ s₁, w ∉ s₂ := by
  rw [List.find?_eq_none]
  simp only [decide_eq_true_eq]
  exact forall_congr' fun _ => imp_not_comm

theorem WellShaped.composeKeeping {p : Substitution × List Trace} (h₁ : s₁.WellShaped)
    (h₂ : s₂.WellShaped) (h : s₁.composeKeeping s₂ = .ok p) : p.1.WellShaped := by
  cases hfind : s₂.domain.find? (· ∈ s₁) with
  | some v =>
    rw [composeKeeping_of_find hfind] at h
    cases h
  | none =>
    obtain ⟨r, trace, hr, hb⟩ := composeKeeping_of_find_none hfind
    rw [hr] at h
    cases h
    rw [wellShaped_iff, hb, ← bindings_applied]
    intro b hb
    rcases List.mem_append.1 hb with hb | hb
    · exact wellShaped_iff.1 (h₁.applied h₂) b hb
    · exact wellShaped_iff.1 h₂ b hb

/-- Without its removal step composition breaks an invariant if and only if a variable is bound on
both sides, and the fault names the first such variable in the order of the right side.  Otherwise
the bindings of both sides are listed, those of the left with the right applied to their terms.
With the removal step there is no fault. -/
theorem composeKeeping_outcome (s₁ s₂ : Substitution) :
    ((∃ fault, s₁.composeKeeping s₂ = .error fault ∧ fault.faultClass = .invariantViolation) ↔
        ∃ v ∈ s₁, v ∈ s₂) ∧
      (∀ fault, s₁.composeKeeping s₂ = .error fault →
        ∃ v, s₂.domain.find? (· ∈ s₁) = some v ∧ fault = .boundTwice v ∧
          fault.faultClass = .invariantViolation ∧
          fault.message = "compose produced a second binding for '" ++ v.name ++ "'") ∧
      ((∀ v ∈ s₁, v ∉ s₂) → ∃ r trace, s₁.composeKeeping s₂ = .ok (r, trace) ∧
        r.bindings = (s₁.bindings.map fun b => (b.1, s₂.apply b.2)) ++ s₂.bindings) ∧
      (∃ r, s₁.compose s₂ = .ok r) ∧
      (s₁.WellShaped → s₂.WellShaped → ∀ (store : Store) (i j : Nat),
        store.substitution i = s₁ → store.substitution j = s₂ →
          SubstitutionOperation.composeKeeping.run store [.substitution i, .substitution j] =
            (s₁.composeKeeping s₂).map fun p => .composed p.1 p.2) := by
  refine ⟨⟨?_, ?_⟩, ?_, ?_, ⟨_, compose_eq_ok s₁ s₂⟩, ?_⟩
  · rintro ⟨fault, hfault, -⟩
    by_contra hdisjoint
    obtain ⟨r, trace, hr, -⟩ :=
      composeKeeping_of_find_none (find_eq_none_iff.2 fun v h₁ h₂ => hdisjoint ⟨v, h₁, h₂⟩)
    rw [hr] at hfault
    cases hfault
  · rintro ⟨v, h₁, h₂⟩
    cases hfind : s₂.domain.find? (· ∈ s₁) with
    | none => exact absurd h₂ (find_eq_none_iff.1 hfind v h₁)
    | some w => exact ⟨.boundTwice w, composeKeeping_of_find hfind, rfl⟩
  · intro fault hfault
    cases hfind : s₂.domain.find? (· ∈ s₁) with
    | none =>
      obtain ⟨r, trace, hr, -⟩ := composeKeeping_of_find_none hfind
      rw [hr] at hfault
      cases hfault
    | some v =>
      rw [composeKeeping_of_find hfind] at hfault
      cases hfault
      exact ⟨v, rfl, rfl, rfl, rfl⟩
  · exact fun hdisjoint => composeKeeping_of_find_none (find_eq_none_iff.2 hdisjoint)
  · rintro h₁ h₂ store i j rfl rfl
    exact composition_eq fun p hp => h₁.composeKeeping h₂ hp

/-- `{x -> y, z -> a}` and `{w -> b, z -> c, x -> d}` in a store: both bind `x` and `z`, and the
fault names `z`.  `{w -> y}` and `{y -> w}` have no variable in common, and the binding of `w`
that becomes trivial stays. -/
theorem composeKeeping_outcome_both_sides :
    SubstitutionOperation.composeKeeping.run
        ⟨[⟨[(⟨"x"⟩, .var ⟨"y"⟩), (⟨"z"⟩, .const "a")], by decide⟩,
          ⟨[(⟨"w"⟩, .const "b"), (⟨"z"⟩, .const "c"), (⟨"x"⟩, .const "d")], by decide⟩], [], 0⟩
        [.substitution 0, .substitution 1] = .error (.boundTwice ⟨"z"⟩) ∧
      ∃ r trace, SubstitutionOperation.composeKeeping.run
          ⟨[⟨[(⟨"w"⟩, .var ⟨"y"⟩)], by decide⟩, ⟨[(⟨"y"⟩, .var ⟨"w"⟩)], by decide⟩], [], 0⟩
          [.substitution 0, .substitution 1] = .ok (.composed r trace) ∧
        r.bindings = [(⟨"w"⟩, .var ⟨"w"⟩), (⟨"y"⟩, .var ⟨"w"⟩)] := by
  obtain ⟨hiff, hnamed, -, -, hrun⟩ := composeKeeping_outcome
    ⟨[(⟨"x"⟩, .var ⟨"y"⟩), (⟨"z"⟩, .const "a")], by decide⟩
    ⟨[(⟨"w"⟩, .const "b"), (⟨"z"⟩, .const "c"), (⟨"x"⟩, .const "d")], by decide⟩
  obtain ⟨-, -, hlisted, -, hrun'⟩ := composeKeeping_outcome
    ⟨[(⟨"w"⟩, .var ⟨"y"⟩)], by decide⟩ ⟨[(⟨"y"⟩, .var ⟨"w"⟩)], by decide⟩
  constructor
  · obtain ⟨fault, hfault, -⟩ := hiff.2 ⟨⟨"x"⟩, by decide, by decide⟩
    obtain ⟨v, hv, rfl, -⟩ := hnamed fault hfault
    have hz : (⟨"z"⟩ : Var) = v := Option.some.inj hv
    rw [hrun (by decide) (by decide) _ 0 1 rfl rfl, hfault, hz]
    rfl
  · obtain ⟨r, trace, hr, hb⟩ := hlisted (by decide)
    refine ⟨r, trace, ?_, hb.trans (by decide)⟩
    rw [hrun' (by decide) (by decide) _ 0 1 rfl rfl, hr]
    rfl

end Substitution

end TermAlgebra
