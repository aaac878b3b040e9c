import Mathlib.Data.List.Flatten
import TermAlgebra.Proofs.TermReport

/-!
# Extended signatures

A signature that declares more, or leaves constants free, finds fault with fewer nodes
(`Extends.misuse?_eq_none`).  What it says about the others may change: a symbol that was not
declared may now be declared with another arity.  So it is the places of the errors that go over
from the larger signature to the smaller, in their order (`errors_of_extension`).
-/

namespace TermAlgebra

variable {α : Type} [Declarable α] {sig sig' : Signature α}

namespace Signature

/-! ## Extensions -/

/-- The second signature declares all symbols of the first alike, and permits all constants that the
first does.  Where no constant is declared all are free, so a signature without constants is only
extended by one without constants. -/
structure Extends (sig sig' : Signature α) : Prop where
  symbols : ∀ name f, sig.getSymbol name = some f → sig'.getSymbol name = some f
  constants : sig'.constants = [] ∨
    sig.constants ≠ [] ∧ ∀ c, sig.declares c = true → sig'.declares c = true

/-- More constants permit more, if there were any. -/
theorem Extends.of_subset
    (hsymbols : ∀ name f, sig.getSymbol name = some f → sig'.getSymbol name = some f)
    (hconstants : sig'.constants = [] ∨ sig.constants ≠ [] ∧ sig.constants ⊆ sig'.constants) :
    sig.Extends sig' where
  symbols := hsymbols
  constants := by
    refine hconstants.imp_right fun ⟨hne, hsubset⟩ => ⟨hne, fun c hc => ?_⟩
    obtain ⟨a, ha, hname⟩ := (sig.declares_eq_true_iff c).1 hc
    exact (sig'.declares_eq_true_iff c).2 ⟨a, hsubset ha, hname⟩

/-- Symbols that come after those of a signature take none of them away. -/
theorem extends_append (sig : Signature α) (fs : List Symbol) {cs : List α}
    (h : cs = [] ∨ sig.constants ≠ [] ∧ sig.constants ⊆ cs) :
    sig.Extends ⟨sig.symbols ++ fs, cs⟩ := by
  refine .of_subset (fun name f hf => ?_) h
  rw [getSymbol, List.find?_append]
  exact Option.or_eq_some_iff.2 (Or.inl hf)

theorem Extends.misuse?_eq_none (h : sig.Extends sig') {u : Term} (hu : sig.misuse? u = none) :
    sig'.misuse? u = none := by
  cases u with
  | var v => rfl
  | app f as => exact misuse?_app_eq_none_iff.2 (h.symbols f.name f (misuse?_app_eq_none_iff.1 hu))
  | const c =>
    refine misuse?_const_eq_none_iff.2 fun hne' => ?_
    obtain ⟨hne, hdeclares⟩ := h.constants.resolve_left hne'
    rw [← declares_eq_true_iff]
    exact hdeclares c ((sig.declares_eq_true_iff c).2 (misuse?_const_eq_none_iff.1 hu hne))

/-! ## Places of errors -/

/-- The places of the errors are the paths of the misused nodes. -/
theorem map_path_errorsAt (sig : Signature α) (path : String) (t : Term) :
    (sig.errorsAt path t).map Diagnostic.path =
      (t.nodes.filter fun node => (sig.misuse? node.2).isSome).map fun node =>
        some (Position.path path node.1) := by
  rw [errorsAt]
  induction t.nodes with
  | nil => rfl
  | cons node nodes ih =>
    rw [List.filterMap_cons, List.filter_cons, errorAt]
    cases sig.misuse? node.2 with
    | none => exact ih
    | some m => exact congrArg (some (Position.path path node.1) :: ·) ih

theorem Extends.map_path_errorsAt_sublist (h : sig.Extends sig') (path : String) (t : Term) :
    ((sig'.errorsAt path t).map Diagnostic.path).Sublist
      ((sig.errorsAt path t).map Diagnostic.path) := by
  rw [map_path_errorsAt, map_path_errorsAt]
  refine (List.monotone_filter_right t.nodes fun node hnode => ?_).map _
  rw [← Option.ne_none_iff_isSome] at hnode ⊢
  exact mt h.misuse?_eq_none hnode

end Signature

/-- Without errors there are no places of errors. -/
theorem Report.isWellFormed_of_sublist {σ : Type} {r r' : Report σ}
    (h : (r'.errors.map Diagnostic.path).Sublist (r.errors.map Diagnostic.path))
    (hr : r.isWellFormed = true) : r'.isWellFormed = true := by
  rw [isWellFormed, List.isEmpty_iff] at hr ⊢
  rw [hr, List.map_nil, List.sublist_nil, List.map_eq_nil_iff] at h
  exact h

/-- What is checked against an extension has errors only where it has errors already, so what is
well formed stays so. -/
theorem errors_of_extension (h : sig.Extends sig') :
    (∀ t, ((checkTerm t sig').errors.map Diagnostic.path).Sublist
      ((checkTerm t sig).errors.map Diagnostic.path)) ∧
    (∀ s, ((checkSubstitution s sig').errors.map Diagnostic.path).Sublist
      ((checkSubstitution s sig).errors.map Diagnostic.path)) ∧
    (∀ t, (checkTerm t sig).isWellFormed = true → (checkTerm t sig').isWellFormed = true) ∧
    ∀ s, (checkSubstitution s sig).isWellFormed = true →
      (checkSubstitution s sig').isWellFormed = true := by
  have hterm : ∀ t, ((checkTerm t sig').errors.map Diagnostic.path).Sublist
      ((checkTerm t sig).errors.map Diagnostic.path) := by
    intro t
    rw [errors_checkTerm, errors_checkTerm]
    exact h.map_path_errorsAt_sublist "term" t
  have hsubstitution : ∀ s, ((checkSubstitution s sig').errors.map Diagnostic.path).Sublist
      ((checkSubstitution s sig).errors.map Diagnostic.path) := by
    intro s
    rw [errors_checkSubstitution, errors_checkSubstitution, List.map_flatMap, List.map_flatMap]
    exact List.Sublist.flatMap_right _ fun b _ =>
      h.map_path_errorsAt_sublist (bindingPath b.1) b.2
  exact ⟨hterm, hsubstitution, fun t => Report.isWellFormed_of_sublist (hterm t),
    fun s => Report.isWellFormed_of_sublist (hsubstitution s)⟩

/-- `g(f(b), c)`, where at first `g` and `b` are not declared.  Then `b` is, and `g` is with one
argument: the root has another error than before. -/
theorem errors_of_extension_other_error :
    let sig : Signature String := ⟨[⟨"f", 1⟩], ["a"]⟩
    let sig' : Signature String := ⟨[⟨"f", 1⟩, ⟨"g", 1⟩], ["b", "a"]⟩
    let t : Term := .app ⟨"g", 2⟩ [.app ⟨"f", 1⟩ [.const "b"], .const "c"]
    (checkTerm t sig).errors.map (fun d => (d.check, d.path)) =
      [("symbol_declared", some "term"), ("constant_declared", some "term.args[0].args[0]"),
        ("constant_declared", some "term.args[1]")] ∧
    (checkTerm t sig').errors.map (fun d => (d.check, d.path)) =
      [("symbol_arity", some "term"), ("constant_declared", some "term.args[1]")] ∧
    sig.Extends sig' ∧
    ((checkTerm t sig').errors.map Diagnostic.path).Sublist
      ((checkTerm t sig).errors.map Diagnostic.path) := by
  intro sig sig' t
  have hextends : sig.Extends sig' := sig.extends_append [⟨"g", 1⟩] (Or.inr ⟨by decide, by decide⟩)
  refine ⟨?_, ?_, hextends, (errors_of_extension hextends).1 t⟩
  · rw [errors_checkTerm]
    decide
  · rw [errors_checkTerm]
    decide

end TermAlgebra
