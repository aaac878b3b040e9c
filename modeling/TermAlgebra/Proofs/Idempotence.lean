import Mathlib.Tactic.TFAE
import TermAlgebra.Proofs.CompositionLaw
import TermAlgebra.Proofs.Diagnosis

/-!
# Idempotence

A substitution is idempotent if no bound term brings a bound variable back.  This is a condition on
the bindings alone; here it is compared with what the substitution does (`isIdempotent_tfae`).  The
link is that each bound term is left as it is (`isIdempotent_iff_apply_eq_self`).

A trivial binding brings its own variable back, and yet applying it twice does no more than applying
it once.  So that nothing more happens the second time means idempotence only where no binding is
trivial.

Of two idempotent substitutions the composition is idempotent if the second does not bring back what
the first has taken away (`isIdempotent_compose`).
-/

namespace TermAlgebra

namespace Substitution

variable {s : Substitution}

theorem isIdempotent_iff : s.isIdempotent = true ↔ ∀ v ∈ s, v ∉ s.rangeVariables := by
  rw [isIdempotent, Bool.not_eq_true', List.any_eq_false]
  simp only [List.contains_iff_mem, mem_iff]

/-- Bindings of an idempotent substitution are not trivial, and their terms are left as they are. -/
theorem isIdempotent_iff_apply_eq_self :
    s.isIdempotent = true ↔ ∀ b ∈ s.bindings, b.2 ≠ .var b.1 ∧ s.apply b.2 = b.2 := by
  rw [isIdempotent_iff]
  constructor
  · intro h b hb
    have hfree : ∀ w ∈ b.2.occurrences, w ∉ s := fun w hw hs =>
      h w hs (mem_rangeVariables.2 ⟨b, hb, hw⟩)
    refine ⟨fun htrivial => hfree b.1 ?_ (mem_of_mem_bindings hb), ?_⟩
    · simp [htrivial]
    · exact apply_eq_self_iff.2 fun w hw => toFun_of_not_mem (hfree w hw)
  · intro h v hv hrange
    obtain ⟨b, hb, hvb⟩ := mem_rangeVariables.1 hrange
    have hself : s.toFun v = .var v := apply_eq_self_iff.1 (h b hb).2 v hvb
    have htrivial : (v, .var v) ∈ s.bindings :=
      lookup_eq_some_iff.1 (lookup_eq_some_var_iff.2 ⟨hv, hself⟩)
    exact (h _ htrivial).1 rfl

/-! ## Composition with itself -/

theorem bindings_followedBy_self (h : s.isIdempotent = true) :
    (s.followedBy s).bindings = s.bindings := by
  have hfixed := isIdempotent_iff_apply_eq_self.1 h
  have hmap : (s.bindings.map fun b => (b.1, s.apply b.2)) = s.bindings := by
    refine (List.map_congr_left fun b hb => ?_).trans (List.map_id s.bindings)
    rw [(hfixed b hb).2]
    rfl
  have hleft : s.bindings.filter (fun b => b.2 ≠ .var b.1) = s.bindings :=
    List.filter_eq_self.2 fun b hb => decide_eq_true (hfixed b hb).1
  have hright : s.bindings.filter (fun b => b.1 ∉ s) = [] :=
    List.filter_eq_nil_iff.2 fun b hb hfree =>
      of_decide_eq_true hfree (mem_of_mem_bindings hb)
  rw [bindings_followedBy, hmap, hleft, hright, List.append_nil]

/-- What is left of the bindings after composing is not trivial, and has the substitution applied to
its terms. -/
theorem isIdempotent_of_followedBy_equivalent (h : (s.followedBy s).equivalent s = true) :
    s.isIdempotent = true := by
  refine isIdempotent_iff_apply_eq_self.2 fun b hb => ?_
  have hlookup : s.lookup b.1 = some b.2 := lookup_eq_some_iff.2 hb
  have hmem : b ∈ (s.followedBy s).bindings := (equivalent_iff_perm.1 h).symm.subset hb
  rcases mem_bindings_followedBy.1 hmem with ⟨t, ht, happly, hne⟩ | ⟨hfree, -⟩
  · rw [hlookup] at ht
    cases ht
    exact ⟨hne, happly.symm⟩
  · exact absurd (mem_of_mem_bindings hb) hfree

/-! ## Results -/

theorem not_mem_occurrences_of_isIdempotent (h : s.isIdempotent = true) (t : Term) :
    ∀ v ∈ s, v ∉ (s.apply t).occurrences :=
  fun v hv => not_mem_occurrences_apply hv (isIdempotent_iff.1 h v hv) t

theorem apply_apply_of_isIdempotent (h : s.isIdempotent = true) (t : Term) :
    s.apply (s.apply t) = s.apply t :=
  apply_eq_self_iff.2 fun v hv => toFun_of_not_mem fun hs =>
    not_mem_occurrences_of_isIdempotent h t v hs hv

theorem apply_var_of_mem_bindings {b : Var × Term} (hb : b ∈ s.bindings) :
    s.apply (.var b.1) = b.2 := by
  rw [apply_var, toFun_of_lookup (lookup_eq_some_iff.2 hb)]

/-! ## Warnings -/

theorem overlap_eq_nil_iff : s.overlap = [] ↔ s.isIdempotent = true := by
  rw [overlap, List.filter_eq_nil_iff, isIdempotent_iff]
  simp only [contains_iff]
  exact ⟨fun h v hv hrange => h v hrange hv, fun h v hrange hv => h v hv hrange⟩

theorem overlapWarnings_eq_nil_iff : s.overlapWarnings = [] ↔ s.isIdempotent = true := by
  rw [overlapWarnings, ← overlap_eq_nil_iff]
  cases s.overlap <;> simp

variable {α : Type} [Declarable α]

/-- No other check bears the name of the one for bound variables that come back. -/
theorem mem_overlapWarnings (sig : Signature α) {d : Diagnostic String} :
    d ∈ s.overlapWarnings ↔
      d ∈ (checkSubstitution s sig).warnings ∧ d.check = "not_idempotent" := by
  rw [mem_warnings, checkSubstitution_eq, List.mem_append, List.mem_append]
  constructor
  · intro hd
    have heq : d = overlapWarning s.overlap := by
      rw [overlapWarnings] at hd
      split at hd
      · cases hd
      · exact List.mem_singleton.1 hd
    rw [heq] at hd ⊢
    exact ⟨⟨Or.inr hd, rfl⟩, rfl⟩
  · rintro ⟨⟨(hd | hd) | hd, -⟩, hcheck⟩
    · obtain ⟨b, -, hd⟩ := List.mem_flatMap.1 hd
      rcases List.mem_append.1 hd with hd | hd
      · obtain ⟨node, -, m, -, rfl⟩ := Signature.mem_errorsAt.1 hd
        exact absurd hcheck m.check_ne_overlap
      · split at hd
        · rw [List.mem_singleton.1 hd] at hcheck
          simp at hcheck
        · cases hd
    · obtain ⟨name, -, rfl⟩ := List.mem_map.1 hd
      simp [clashWarning] at hcheck
    · exact hd

theorem forall_check_ne_iff (s : Substitution) (sig : Signature α) :
    (∀ d ∈ (checkSubstitution s sig).warnings, d.check ≠ "not_idempotent") ↔
      s.isIdempotent = true := by
  rw [← overlapWarnings_eq_nil_iff, List.eq_nil_iff_forall_not_mem]
  refine forall_congr' fun d => ?_
  rw [mem_overlapWarnings sig, not_and]

/-- What it means that a substitution is idempotent: by its composition with itself, up to order or
with the order; by the variables that occur in results; by applying it twice; and by what a check
against any signature says.  It does not matter whether all terms are considered or only the well
shaped ones, and one signature tells as much as all. -/
theorem isIdempotent_tfae (α : Type) [Declarable α] (s : Substitution) :
    [s.isIdempotent = true,
      ∃ r, s.compose s = .ok r ∧ r.equivalent s = true,
      ∃ r, s.compose s = .ok r ∧ r.bindings = s.bindings,
      ∀ t, ∀ v ∈ s, v ∉ (s.apply t).occurrences,
      ∀ t, t.WellShaped → ∀ v ∈ s, v ∉ (s.apply t).occurrences,
      (∀ b ∈ s.bindings, b.2 ≠ .var b.1) ∧ ∀ t, s.apply (s.apply t) = s.apply t,
      (∀ b ∈ s.bindings, b.2 ≠ .var b.1) ∧
        ∀ t, t.WellShaped → s.apply (s.apply t) = s.apply t,
      ∀ sig : Signature α, ∀ d ∈ (checkSubstitution s sig).warnings,
        d.check ≠ "not_idempotent"].TFAE ∧
    ∀ sig : Signature α,
      (∀ d ∈ (checkSubstitution s sig).warnings, d.check ≠ "not_idempotent") ↔
        s.isIdempotent = true := by
  refine ⟨?_, forall_check_ne_iff s⟩
  tfae_have 1 → 3 := fun h => ⟨s.followedBy s, compose_eq_ok s s, bindings_followedBy_self h⟩
  tfae_have 3 → 2 := fun ⟨r, hr, hb⟩ => ⟨r, hr, equivalent_iff_perm.2 (.of_eq hb)⟩
  tfae_have 2 → 1 := by
    rintro ⟨r, hr, hequiv⟩
    rw [compose_eq_ok] at hr
    cases hr
    exact isIdempotent_of_followedBy_equivalent hequiv
  tfae_have 1 → 4 := not_mem_occurrences_of_isIdempotent
  tfae_have 4 → 5 := fun h t _ => h t
  tfae_have 5 → 1 := by
    intro h
    refine isIdempotent_iff.2 fun v hv hrange => ?_
    obtain ⟨b, hb, hvb⟩ := mem_rangeVariables.1 hrange
    rw [← apply_var_of_mem_bindings hb] at hvb
    exact h _ (Term.wellShaped_var b.1) v hv hvb
  tfae_have 1 → 6 := fun h =>
    ⟨fun b hb => (isIdempotent_iff_apply_eq_self.1 h b hb).1, apply_apply_of_isIdempotent h⟩
  tfae_have 6 → 7 := fun h => ⟨h.1, fun t _ => h.2 t⟩
  tfae_have 7 → 1 := by
    rintro ⟨hnontrivial, htwice⟩
    refine isIdempotent_iff_apply_eq_self.2 fun b hb => ⟨hnontrivial b hb, ?_⟩
    have h := htwice _ (Term.wellShaped_var b.1)
    rwa [apply_var_of_mem_bindings hb] at h
  tfae_have 1 ↔ 8 :=
    ⟨fun h sig => (forall_check_ne_iff s sig).2 h,
      fun h => (forall_check_ne_iff s ⟨[], []⟩).1 (h _)⟩
  tfae_finish

/-- A trivial binding brings its own variable back. -/
example : (⟨[(⟨"x"⟩, .var ⟨"x"⟩)], by decide⟩ : Substitution).isIdempotent = false := by decide

/-! ## Composition of two -/

section

variable {s₁ s₂ : Substitution} {v : Var}

theorem mem_of_mem_followedBy (h : v ∈ s₁.followedBy s₂) : v ∈ s₁ ∨ v ∈ s₂ :=
  (mem_followedBy.1 h).imp And.left And.right

/-- A variable of a composed term was left alone by the second substitution or brought in by it. -/
theorem mem_rangeVariables_of_followedBy (h : v ∈ (s₁.followedBy s₂).rangeVariables) :
    (v ∈ s₁.rangeVariables ∧ v ∉ s₂) ∨ v ∈ s₂.rangeVariables := by
  obtain ⟨⟨w, u⟩, hb, hv⟩ := mem_rangeVariables.1 h
  rcases mem_bindings_followedBy.1 hb with ⟨t, ht, rfl, -⟩ | ⟨-, hu⟩
  · rcases mem_or_mem_rangeVariables_of_mem_apply hv with ⟨hvt, hfree⟩ | hrange
    · exact Or.inl ⟨mem_rangeVariables_of_lookup ht hvt, hfree⟩
    · exact Or.inr hrange
  · exact Or.inr (mem_rangeVariables_of_lookup hu hv)

theorem isIdempotent_followedBy (h₁ : s₁.isIdempotent = true) (h₂ : s₂.isIdempotent = true)
    (hrange : ∀ v ∈ s₁, v ∉ s₂.rangeVariables) : (s₁.followedBy s₂).isIdempotent = true := by
  refine isIdempotent_iff.2 fun v hv hback => ?_
  rcases mem_rangeVariables_of_followedBy hback with ⟨hback₁, hfree₂⟩ | hback₂
  · rcases mem_of_mem_followedBy hv with hv₁ | hv₂
    · exact isIdempotent_iff.1 h₁ v hv₁ hback₁
    · exact hfree₂ hv₂
  · rcases mem_of_mem_followedBy hv with hv₁ | hv₂
    · exact hrange v hv₁ hback₂
    · exact isIdempotent_iff.1 h₂ v hv₂ hback₂

/-- A composed substitution can be asked as soon as it is committed. -/
theorem run_isIdempotent_commit (store : Store) (r : Substitution) (trace : List Trace) :
    SubstitutionOperation.isIdempotent.run ((Outcome.composed r trace).action.commit store).2
      [((Outcome.composed r trace).action.commit store).1] = .ok (.bool r.isIdempotent) := by
  show Except.ok (Outcome.bool
    ((store.newSubstitution r).2.substitution (store.newSubstitution r).1).isIdempotent) = _
  rw [Store.substitution_newSubstitution_self]

/-- Idempotent substitutions compose to an idempotent one if the second brings no variable of the
first back; variables that both of them bind do no harm.  So if two such substitutions of a store
are composed, by either operation, and the one that was made is asked, the answer is yes. -/
theorem isIdempotent_compose (h₁ : s₁.isIdempotent = true) (h₂ : s₂.isIdempotent = true)
    (hrange : ∀ v ∈ s₁.domain, v ∉ s₂.rangeVariables) :
    ∃ r, s₁.compose s₂ = .ok r ∧ r.isIdempotent = true ∧
      (s₁.WellShaped → s₂.WellShaped → ∀ (store : Store) (i j : Nat),
        store.substitution i = s₁ → store.substitution j = s₂ →
          ∀ op ∈ [SubstitutionOperation.compose, .composeMethod], ∃ o,
            op.run store [.substitution i, .substitution j] = .ok o ∧
            SubstitutionOperation.isIdempotent.run (o.action.commit store).2
              [(o.action.commit store).1] = .ok (.bool true)) := by
  have hr : (s₁.followedBy s₂).isIdempotent = true := isIdempotent_followedBy h₁ h₂ hrange
  refine ⟨s₁.followedBy s₂, compose_eq_ok s₁ s₂, hr, ?_⟩
  rintro hw₁ hw₂ store i j rfl rfl op hop
  obtain ⟨trace, hrun⟩ := run_compose_eq_ok hw₁ hw₂ op hop
  refine ⟨_, hrun, ?_⟩
  rw [run_isIdempotent_commit, hr]

/-- `{x -> g(y,w), z -> y}` followed by `{y -> f(u), x -> u, v -> h(u)}`: both bind `x`. -/
theorem isIdempotent_compose_shared :
    let s₁ : Substitution := ⟨[(⟨"x"⟩, .app ⟨"g", 2⟩ [.var ⟨"y"⟩, .var ⟨"w"⟩]),
      (⟨"z"⟩, .var ⟨"y"⟩)], by decide⟩
    let s₂ : Substitution := ⟨[(⟨"y"⟩, .app ⟨"f", 1⟩ [.var ⟨"u"⟩]), (⟨"x"⟩, .var ⟨"u"⟩),
      (⟨"v"⟩, .app ⟨"h", 1⟩ [.var ⟨"u"⟩])], by decide⟩
    (s₁.isIdempotent = true ∧ s₂.isIdempotent = true ∧
      ∀ v ∈ s₁.domain, v ∉ s₂.rangeVariables) ∧
    (∃ r, s₁.compose s₂ = .ok r ∧ r.isIdempotent = true) ∧
    ∃ o, SubstitutionOperation.compose.run ⟨[s₂, s₁], [], 0⟩ [.substitution 1, .substitution 0] =
        .ok o ∧
      SubstitutionOperation.isIdempotent.run (o.action.commit ⟨[s₂, s₁], [], 0⟩).2
        [(o.action.commit ⟨[s₂, s₁], [], 0⟩).1] = .ok (.bool true) := by
  intro s₁ s₂
  have h₁ : s₁.isIdempotent = true := by decide
  have h₂ : s₂.isIdempotent = true := by decide
  have hrange : ∀ v ∈ s₁.domain, v ∉ s₂.rangeVariables := by decide
  obtain ⟨r, hr, hidempotent, hrun⟩ := isIdempotent_compose h₁ h₂ hrange
  exact ⟨⟨h₁, h₂, hrange⟩, ⟨r, hr, hidempotent⟩, hrun (by decide) (by decide) ⟨[s₂, s₁], [], 0⟩
    1 0 rfl rfl .compose (by decide)⟩

/-- `{x -> y}` followed by `{y -> f(x)}` binds `x` to `f(x)`. -/
example : (followedBy ⟨[(⟨"x"⟩, .var ⟨"y"⟩)], by decide⟩
    ⟨[(⟨"y"⟩, .app ⟨"f", 1⟩ [.var ⟨"x"⟩])], by decide⟩).isIdempotent = false := by decide

end

end Substitution

end TermAlgebra
