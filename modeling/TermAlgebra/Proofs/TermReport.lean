import TermAlgebra.Proofs.WellFormed

/-!
# Reports on terms

A check of a term finds the nodes that go against the signature and no others, each once, in
preorder and at its place (`errors_are_misused_nodes`).  What goes against a signature is said by
`Signature.Misused`, one rule for each kind of error.  A place is found again by following the
numbers of its path from the root.
-/

namespace TermAlgebra

variable {α : Type}

namespace Signature

/-! ## Misuses -/

theorem name_of_getSymbol {sig : Signature α} {g : Symbol} {name : String}
    (h : sig.getSymbol name = some g) : g.name = name := by
  have hname := List.find?_some h
  simpa using hname

theorem declaresConstants_iff {sig : Signature α} :
    sig.declaresConstants = true ↔ sig.constants ≠ [] := by
  simp [declaresConstants]

variable [Declarable α]

/-- The root of a term goes against a signature: its symbol is not declared, or with another arity,
or it is a constant that is not declared although some are. -/
inductive Misused (sig : Signature α) : Term → Misuse → Prop where
  | undeclaredSymbol {f : Symbol} {as : List Term} :
    sig.getSymbol f.name = none → Misused sig (.app f as) (.undeclaredSymbol f)
  | otherArity {f g : Symbol} {as : List Term} :
    sig.getSymbol f.name = some g → g.arity ≠ f.arity →
      Misused sig (.app f as) (.otherArity f g.arity)
  | undeclaredConstant {c : String} :
    sig.constants ≠ [] → (∀ a ∈ sig.constants, Declarable.name? a ≠ some c) →
      Misused sig (.const c) (.undeclaredConstant c)

variable {sig : Signature α} {t : Term} {m : Misuse} {c : String} {f : Symbol} {as : List Term}

theorem misuse?_const : sig.misuse? (.const c) =
    if sig.constants ≠ [] ∧ ∀ a ∈ sig.constants, Declarable.name? a ≠ some c then
      some (.undeclaredConstant c)
    else none := by
  have hiff : (sig.declaresConstants && !sig.declares c) = true ↔
      sig.constants ≠ [] ∧ ∀ a ∈ sig.constants, Declarable.name? a ≠ some c := by
    rw [Bool.and_eq_true, declaresConstants_iff, Bool.not_eq_true', ← Bool.not_eq_true,
      declares_eq_true_iff]
    simp
  rw [misuse?]
  by_cases h : (sig.declaresConstants && !sig.declares c) = true
  · rw [if_pos h, if_pos (hiff.1 h)]
  · rw [if_neg h, if_neg (mt hiff.2 h)]

/-- The misuse that a check sees at a node is the one that the rules give. -/
theorem misuse?_eq_some_iff : sig.misuse? t = some m ↔ sig.Misused t m := by
  constructor
  · intro h
    cases t with
    | var v => simp [misuse?] at h
    | const c =>
      rw [misuse?_const] at h
      split at h
      · next hc =>
        cases h
        exact .undeclaredConstant hc.1 hc.2
      · cases h
    | app f as =>
      rw [misuse?] at h
      split at h
      · next hnone =>
        cases h
        exact .undeclaredSymbol hnone
      · next g hg =>
        split at h
        · next harity =>
          cases h
          exact .otherArity hg harity
        · cases h
  · intro h
    cases h with
    | undeclaredSymbol hnone => simp [misuse?, hnone]
    | otherArity hg harity => simp [misuse?, hg, harity]
    | undeclaredConstant hsome hother => rw [misuse?_const, if_pos ⟨hsome, hother⟩]

theorem misuse?_const_eq_none_iff : sig.misuse? (.const c) = none ↔
    (sig.constants ≠ [] → ∃ a ∈ sig.constants, Declarable.name? a = some c) := by
  rw [misuse?_const, ite_eq_right_iff]
  simp

/-- A symbol is used as declared if and only if it is the one declared under its name. -/
theorem misuse?_app_eq_none_iff :
    sig.misuse? (.app f as) = none ↔ sig.getSymbol f.name = some f := by
  rw [misuse?]
  cases hg : sig.getSymbol f.name with
  | none => simp
  | some g =>
    have hname : g.name = f.name := name_of_getSymbol hg
    by_cases harity : g.arity = f.arity
    · have hgf : g = f := Symbol.ext hname harity
      simp [hgf]
    · have hgf : g ≠ f := fun h => harity (congrArg Symbol.arity h)
      simp [harity, hgf]

/-! ## Places -/

theorem mem_errorsAt_iff {root : String} {d : Diagnostic String} :
    d ∈ sig.errorsAt root t ↔
      ∃ p u m, t.at? p = some u ∧ sig.Misused u m ∧ d = m.diagnostic (Position.path root p) := by
  rw [mem_errorsAt]
  constructor
  · rintro ⟨⟨p, u⟩, hmem, m, hm, rfl⟩
    exact ⟨p, u, m, Term.mem_nodes.1 hmem, misuse?_eq_some_iff.1 hm, rfl⟩
  · rintro ⟨p, u, m, hat, hm, rfl⟩
    exact ⟨(p, u), Term.mem_nodes.2 hat, m, misuse?_eq_some_iff.2 hm, rfl⟩

/-- Positions differ from node to node, and so do their paths. -/
theorem nodup_paths_errorsAt (sig : Signature α) (root : String) (t : Term) :
    ((sig.errorsAt root t).map Diagnostic.path).Nodup := by
  rw [List.nodup_iff_pairwise_ne, List.pairwise_map, errorsAt, List.pairwise_filterMap]
  refine t.pairwise_nodes.imp fun {m n} hlt d hd e he hpath => ?_
  obtain ⟨_, -, rfl⟩ := Option.map_eq_some_iff.1 hd
  obtain ⟨_, -, rfl⟩ := Option.map_eq_some_iff.1 he
  have hpos : m.1 = n.1 := Position.path_injective root (Option.some.inj hpath)
  rw [hpos] at hlt
  exact List.lt_irrefl _ hlt

end Signature

/-! ## Reports -/

variable [Declarable α]

theorem filter_warning_errorsAt (sig : Signature α) (path : String) (t : Term) :
    ((sig.errorsAt path t).filter fun d => d.severity == .warning) = [] := by
  refine List.filter_eq_nil_iff.2 fun d hd => ?_
  obtain ⟨node, -, m, -, rfl⟩ := Signature.mem_errorsAt.1 hd
  exact Bool.false_ne_true

theorem filter_warning_clashWarnings (names : List String) :
    ((names.map clashWarning).filter fun d => d.severity == .warning) = names.map clashWarning := by
  rw [List.filter_map]
  exact congrArg (List.map clashWarning) (List.filter_eq_self.2 fun _ _ => rfl)

theorem warnings_checkTerm (t : Term) (sig : Signature α) :
    (checkTerm t sig).warnings = (clashNames t.constants t.nullary).map clashWarning := by
  rw [checkTerm_eq, Report.warnings, List.filter_append, filter_warning_errorsAt,
    filter_warning_clashWarnings, List.nil_append]

/-- The report on a term.  Its errors are the misuses at the nodes of the term, in preorder; the
nodes are the subterms at all positions, in the order of the positions.  No warning comes before an
error, and no two errors have the same path. -/
theorem errors_are_misused_nodes (t : Term) (sig : Signature α) :
    ((∀ p u, (p, u) ∈ t.nodes ↔ t.at? p = some u) ∧ t.nodes.Pairwise fun m n => m.1 < n.1) ∧
    (∀ u m, sig.misuse? u = some m ↔ sig.Misused u m) ∧
    (checkTerm t sig).errors = t.nodes.filterMap (fun node =>
      (sig.misuse? node.2).map (Misuse.diagnostic (Position.path "term" node.1))) ∧
    (checkTerm t sig).diagnostics = (checkTerm t sig).errors ++ (checkTerm t sig).warnings ∧
    (∀ d ∈ (checkTerm t sig).errors, ∃ path u m, d.path = some path ∧
      t.at? (Text.numbers path) = some u ∧ sig.Misused u m ∧ d = m.diagnostic path) ∧
    ((checkTerm t sig).errors.map Diagnostic.path).Nodup ∧
    ((checkTerm t sig).isWellFormed = true ↔
      (∀ p f as, t.at? p = some (.app f as) → sig.getSymbol f.name = some f) ∧
        (sig.constants ≠ [] → ∀ p c, t.at? p = some (.const c) →
          ∃ a ∈ sig.constants, Declarable.name? a = some c)) := by
  refine ⟨⟨fun p u => Term.mem_nodes, t.pairwise_nodes⟩,
    fun u m => Signature.misuse?_eq_some_iff, errors_checkTerm t sig, ?_, ?_, ?_, ?_⟩
  · rw [errors_checkTerm, warnings_checkTerm, checkTerm_eq]
  · intro d hd
    rw [errors_checkTerm, Signature.mem_errorsAt_iff] at hd
    obtain ⟨p, u, m, hat, hm, rfl⟩ := hd
    have hnumbers : Text.numbers (Position.path "term" p) = p :=
      Position.numbers_path (by decide) p
    exact ⟨Position.path "term" p, u, m, rfl, by rw [hnumbers, hat], hm, rfl⟩
  · rw [errors_checkTerm]
    exact sig.nodup_paths_errorsAt "term" t
  · rw [Substitution.isWellFormed_checkTerm_iff]
    constructor
    · intro h
      have hat : ∀ p u, t.at? p = some u → sig.misuse? u = none := fun p u hu =>
        h (p, u) (Term.mem_nodes.2 hu)
      exact ⟨fun p f as happ => Signature.misuse?_app_eq_none_iff.1 (hat p _ happ),
        fun hsome p c hconst => Signature.misuse?_const_eq_none_iff.1 (hat p _ hconst) hsome⟩
    · rintro ⟨happ, hconst⟩ ⟨p, u⟩ hmem
      have hat : t.at? p = some u := Term.mem_nodes.1 hmem
      cases u with
      | var v => rfl
      | const c => exact Signature.misuse?_const_eq_none_iff.2 fun hsome => hconst hsome p c hat
      | app f as => exact Signature.misuse?_app_eq_none_iff.2 (happ p f as hat)

/-- `h` with eleven arguments, ten times `x` and then `k(d)`, where `k` takes two arguments and only
`c` is a constant.  An index of two digits is read as one number. -/
theorem errors_are_misused_nodes_eleventh :
    let sig : Signature String := ⟨[⟨"h", 11⟩, ⟨"k", 2⟩], ["c"]⟩
    let t : Term := .app ⟨"h", 11⟩ (List.replicate 10 (.var ⟨"x"⟩) ++ [.app ⟨"k", 1⟩ [.const "d"]])
    (checkTerm t sig).errors.map (fun d => (d.check, d.path)) =
      [("symbol_arity", some "term.args[10]"),
        ("constant_declared", some "term.args[10].args[0]")] ∧
    t.at? (Text.numbers "term.args[10].args[0]") = some (.const "d") ∧
    sig.Misused (.const "d") (.undeclaredConstant "d") ∧
    (checkTerm t sig).isWellFormed = false := by
  intro sig t
  obtain ⟨-, hmisuse, herrors, -, -, -, hwf⟩ := errors_are_misused_nodes t sig
  refine ⟨?_, by decide, (hmisuse _ _).1 (by decide), ?_⟩
  · rw [herrors]
    decide
  · rw [← Bool.not_eq_true, hwf]
    rintro ⟨happ, -⟩
    exact absurd (happ [10] ⟨"k", 1⟩ [.const "d"] (by decide)) (by decide)

end TermAlgebra
