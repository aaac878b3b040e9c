import TermAlgebra.Proofs.CompositionLaw
import TermAlgebra.Proofs.Diagnosis

/-!
# Well-formed results

The errors of a term after a substitution are its own, and for each occurrence of a bound variable
those of the bound term, found at the place of the variable (`errorsAt_apply_perm`).  So a result is
well formed exactly if the term and the bound terms that it takes in are, and a composition of
well-formed substitutions is well formed.
-/

namespace TermAlgebra

variable {α : Type} [Declarable α]

/-! ## Errors after a substitution -/

namespace Signature

variable (sig : Signature α)

/-- What is found where a node stood: its own error, or if it was a variable the errors of the term
put in. -/
theorem filterMap_graft (path : String) (θ : Var → Term) (node : Position × Term) :
    (Term.graft θ node).filterMap (sig.errorAt path) =
      (sig.errorAt path node).toList ++
        node.2.rootVar.toList.flatMap fun v => sig.errorsAt (Position.path path node.1) (θ v) := by
  obtain ⟨p, u⟩ := node
  cases u with
  | var v =>
    have hput : (Term.graft θ (p, .var v)).filterMap (sig.errorAt path) =
        sig.errorsAt (Position.path path p) (θ v) := by
      rw [Term.graft, List.filterMap_map, errorsAt]
      exact List.filterMap_congr fun node _ => sig.errorAt_under path p node
    rw [hput]
    exact (List.append_nil _).symm
  | const c =>
    rw [Term.graft_const, List.filterMap_cons, List.filterMap_nil]
    cases sig.errorAt path (p, .const c) <;> rfl
  | app f as =>
    have hroot : sig.errorAt path (p, .app f (as.map (Term.subst θ))) =
        sig.errorAt path (p, .app f as) := rfl
    rw [Term.graft_app, List.filterMap_cons, List.filterMap_nil, hroot]
    cases sig.errorAt path (p, .app f as) <;> rfl

theorem errorsAt_subst_perm (path : String) (θ : Var → Term) (t : Term) :
    (sig.errorsAt path (t.subst θ)).Perm (sig.errorsAt path t ++
      t.variableNodes.flatMap fun x => sig.errorsAt (Position.path path x.1) (θ x.2)) := by
  have hnodes : sig.errorsAt path (t.subst θ) = t.nodes.flatMap fun node =>
      (sig.errorAt path node).toList ++
        node.2.rootVar.toList.flatMap fun v =>
          sig.errorsAt (Position.path path node.1) (θ v) := by
    rw [errorsAt, Term.nodes_subst, List.filterMap_flatMap]
    exact List.flatMap_congr fun node _ => sig.filterMap_graft path θ node
  rw [hnodes, Term.flatMap_variableNodes, errorsAt, List.filterMap_eq_flatMap_toList]
  exact (List.flatMap_append_perm _ _ _).symm

end Signature

namespace Substitution

variable {s : Substitution} {sig : Signature α} {t : Term}

/-- The errors of a result, at any path: a variable that is not bound stays, and has none. -/
theorem errorsAt_apply_perm (sig : Signature α) (path : String) (s : Substitution) (t : Term) :
    (sig.errorsAt path (s.apply t)).Perm (sig.errorsAt path t ++
      t.variableNodes.flatMap fun x =>
        match s.lookup x.2 with
        | some u => sig.errorsAt (Position.path path x.1) u
        | none => []) := by
  have hbound : ∀ x ∈ t.variableNodes, sig.errorsAt (Position.path path x.1) (s.toFun x.2) =
      match s.lookup x.2 with
      | some u => sig.errorsAt (Position.path path x.1) u
      | none => [] := by
    intro x _
    cases hlookup : s.lookup x.2 with
    | some u => rw [toFun_of_lookup hlookup]
    | none => rw [toFun_of_not_mem (lookup_eq_none_iff.1 hlookup), Signature.errorsAt_var]
  rw [apply_eq_subst, ← List.flatMap_congr hbound]
  exact sig.errorsAt_subst_perm path s.toFun t

/-! ## Well-formed reports -/

theorem isWellFormed_checkTerm_iff :
    (checkTerm t sig).isWellFormed = true ↔ ∀ node ∈ t.nodes, sig.misuse? node.2 = none := by
  rw [Report.isWellFormed, List.isEmpty_iff, errors_checkTerm, errorsAt_eq_nil_iff]

theorem isWellFormed_checkSubstitution_iff :
    (checkSubstitution s sig).isWellFormed = true ↔
      ∀ b ∈ s.bindings, (checkTerm b.2 sig).isWellFormed = true := by
  rw [Report.isWellFormed, List.isEmpty_iff, errors_checkSubstitution, List.flatMap_eq_nil_iff]
  simp only [isWellFormed_checkTerm_iff, errorsAt_eq_nil_iff]

theorem isWellFormed_apply_iff :
    (checkTerm (s.apply t) sig).isWellFormed = true ↔
      (checkTerm t sig).isWellFormed = true ∧
        ∀ v ∈ t.vars, ∀ u, s.lookup v = some u → (checkTerm u sig).isWellFormed = true := by
  have hvars : ∀ v, v ∈ t.vars ↔ ∃ x ∈ t.variableNodes, x.2 = v := by
    intro v
    rw [Term.mem_vars, ← Term.map_snd_variableNodes, List.mem_map]
  rw [Report.isWellFormed, errors_checkTerm, (errorsAt_apply_perm sig "term" s t).isEmpty_eq,
    List.isEmpty_iff, List.append_eq_nil_iff, List.flatMap_eq_nil_iff, errorsAt_eq_nil_iff,
    ← isWellFormed_checkTerm_iff]
  refine and_congr_right fun _ => ⟨?_, ?_⟩
  · intro h v hv u hu
    obtain ⟨x, hx, rfl⟩ := (hvars v).1 hv
    have hnone := h x hx
    rw [hu] at hnone
    exact isWellFormed_checkTerm_iff.2 (errorsAt_eq_nil_iff.1 hnone)
  · intro h x hx
    cases hlookup : s.lookup x.2 with
    | none => rfl
    | some u =>
      have hu := h x.2 ((hvars x.2).2 ⟨x, hx, rfl⟩) u hlookup
      exact errorsAt_eq_nil_iff.2 (isWellFormed_checkTerm_iff.1 hu)

theorem isWellFormed_followedBy {s₁ s₂ : Substitution}
    (h₁ : (checkSubstitution s₁ sig).isWellFormed = true)
    (h₂ : (checkSubstitution s₂ sig).isWellFormed = true) :
    (checkSubstitution (s₁.followedBy s₂) sig).isWellFormed = true := by
  rw [isWellFormed_checkSubstitution_iff] at h₁ h₂ ⊢
  rintro ⟨v, u⟩ hb
  rcases mem_bindings_followedBy.1 hb with ⟨t, ht, rfl, -⟩ | ⟨-, hu⟩
  · refine isWellFormed_apply_iff.2 ⟨h₁ _ (lookup_eq_some_iff.1 ht), fun w _ u hu => ?_⟩
    exact h₂ _ (lookup_eq_some_iff.1 hu)
  · exact h₂ _ (lookup_eq_some_iff.1 hu)

/-- Where the errors of a result come from, and what follows for well-formed terms and
substitutions.  The errors of a bound term are found once for each occurrence of its variable, at
the place of the occurrence. -/
theorem errors_of_results (sig : Signature α) :
    (∀ (s : Substitution) (t : Term),
      (checkTerm (s.apply t) sig).errors.Perm ((checkTerm t sig).errors ++
        t.variableNodes.flatMap fun x =>
          match s.lookup x.2 with
          | some u => (checkTerm u sig).errors.map
              (Diagnostic.moved "term" (Position.path "term" x.1))
          | none => [])) ∧
    (∀ (s : Substitution) (t : Term),
      (checkTerm (s.apply t) sig).isWellFormed = true ↔
        (checkTerm t sig).isWellFormed = true ∧
          ∀ v ∈ t.vars, ∀ u, s.lookup v = some u → (checkTerm u sig).isWellFormed = true) ∧
    ∀ s₁ s₂ : Substitution, ∃ r, s₁.compose s₂ = .ok r ∧
      ((checkSubstitution s₁ sig).isWellFormed = true →
        (checkSubstitution s₂ sig).isWellFormed = true →
          (checkSubstitution r sig).isWellFormed = true) := by
  refine ⟨fun s t => ?_, fun s t => isWellFormed_apply_iff, fun s₁ s₂ => ?_⟩
  · simp only [errors_checkTerm, Signature.map_moved_errorsAt]
    exact errorsAt_apply_perm sig "term" s t
  · exact ⟨s₁.followedBy s₂, compose_eq_ok s₁ s₂, isWellFormed_followedBy⟩

/-- Where `k` takes two arguments, `{x -> k(c)}` brings an error into `h(x, g(x))` at either place
of `x`.  Followed by `{x -> c}`, which is well formed, `{y -> g(x)}` stays so. -/
theorem errors_of_results_twice :
    let sig : Signature String := ⟨[⟨"h", 2⟩, ⟨"g", 1⟩, ⟨"k", 2⟩], ["c"]⟩
    let t : Term := .app ⟨"h", 2⟩ [.var ⟨"x"⟩, .app ⟨"g", 1⟩ [.var ⟨"x"⟩]]
    let s : Substitution := ⟨[(⟨"x"⟩, .app ⟨"k", 1⟩ [.const "c"])], by decide⟩
    let s₁ : Substitution := ⟨[(⟨"y"⟩, .app ⟨"g", 1⟩ [.var ⟨"x"⟩])], by decide⟩
    let s₂ : Substitution := ⟨[(⟨"x"⟩, .const "c")], by decide⟩
    let otherArity (path : String) : Diagnostic String :=
      ⟨"symbol_arity", .error, "Function 'k' is declared with arity 2, used with arity 1",
        some path⟩
    ((checkTerm (s.apply t) sig).errors.Perm
        [otherArity "term.args[0]", otherArity "term.args[1].args[0]"] ∧
      ¬ (checkTerm (s.apply t) sig).isWellFormed = true) ∧
    (checkSubstitution s₁ sig).isWellFormed = true ∧
    (checkSubstitution s₂ sig).isWellFormed = true ∧
    ∃ r, s₁.compose s₂ = .ok r ∧ (checkSubstitution r sig).isWellFormed = true := by
  intro sig t s s₁ s₂ otherArity
  obtain ⟨hperm, hiff, hcompose⟩ := errors_of_results sig
  have h₁ : (checkSubstitution s₁ sig).isWellFormed = true := by
    simp only [isWellFormed_checkSubstitution_iff, isWellFormed_checkTerm_iff]
    decide
  have h₂ : (checkSubstitution s₂ sig).isWellFormed = true := by
    simp only [isWellFormed_checkSubstitution_iff, isWellFormed_checkTerm_iff]
    decide
  have hbound : ¬ (checkTerm (.app ⟨"k", 1⟩ [.const "c"]) sig).isWellFormed = true := by
    rw [isWellFormed_checkTerm_iff]
    decide
  refine ⟨⟨?_, fun h => hbound (((hiff s t).1 h).2 ⟨"x"⟩ (by decide) _ rfl)⟩, h₁, h₂, ?_⟩
  · have h := hperm s t
    simp only [errors_checkTerm] at h ⊢
    exact h.trans (.of_eq (by decide))
  · obtain ⟨r, hr, hwf⟩ := hcompose s₁ s₂
    exact ⟨r, hr, hwf h₁ h₂⟩

end Substitution

end TermAlgebra
