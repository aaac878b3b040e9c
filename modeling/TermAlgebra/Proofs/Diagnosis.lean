import Mathlib.Data.List.Nodup
import TermAlgebra.Check
import TermAlgebra.Proofs.Preorder

/-!
# What checks find

A check goes through nodes and bindings and gathers diagnostics and names in a context.  No step
looks at what was gathered before, so each adds findings of its own (`Context.adding`), and the
report lists them outright.  The errors of a term are the misuses at its nodes, in preorder
(`errors_checkTerm`).  The report on a substitution has the diagnostics of its bindings in order,
then a warning for each clash among the names of all bound terms, then one if bound variables come
back (`checkSubstitution_eq`).
-/

namespace TermAlgebra

variable {σ α : Type}

/-! ## Findings -/

/-- How a node of a term can go against a signature. -/
inductive Misuse where
  | undeclaredConstant (c : String)
  | undeclaredSymbol (f : Symbol)
  | otherArity (f : Symbol) (declared : Nat)
deriving DecidableEq

namespace Misuse

/-- The check that notices a misuse. -/
def check : Misuse → String
  | undeclaredConstant _ => "constant_declared"
  | undeclaredSymbol _ => "symbol_declared"
  | otherArity _ _ => "symbol_arity"

/-- What is said about a misuse. -/
def message : Misuse → String
  | undeclaredConstant c => "Constant '" ++ c ++ "' is not declared"
  | undeclaredSymbol f => "Function '" ++ f.name ++ "' is not declared"
  | otherArity f declared =>
    "Function '" ++ f.name ++ "' is declared with arity " ++ toString declared ++
      ", used with arity " ++ toString f.arity

/-- The error that notes a misuse at a path. -/
def diagnostic (path : String) (m : Misuse) : Diagnostic String :=
  ⟨m.check, .error, m.message, some path⟩

theorem check_ne_overlap (m : Misuse) : m.check ≠ "not_idempotent" := by
  cases m <;> simp [check]

end Misuse

namespace Signature

variable [Declarable α] (sig : Signature α)

/-- The misuse at a node, which the root of the subterm there shows. -/
def misuse? : Term → Option Misuse
  | .var _ => none
  | .const c =>
    if sig.declaresConstants && !sig.declares c then some (.undeclaredConstant c) else none
  | .app f _ =>
    match sig.getSymbol f.name with
    | none => some (.undeclaredSymbol f)
    | some g => if g.arity ≠ f.arity then some (.otherArity f g.arity) else none

/-- The error at a node of the term at a path. -/
def errorAt (path : String) (node : Position × Term) : Option (Diagnostic String) :=
  (sig.misuse? node.2).map (Misuse.diagnostic (Position.path path node.1))

/-- The errors of the term at a path, in preorder of its nodes. -/
def errorsAt (path : String) (t : Term) : List (Diagnostic String) :=
  t.nodes.filterMap (sig.errorAt path)

@[simp] theorem errorsAt_var (path : String) (v : Var) : sig.errorsAt path (.var v) = [] := by
  simp [errorsAt, Term.nodes, errorAt, misuse?]

theorem errorsAt_const (path c : String) :
    sig.errorsAt path (.const c) = (sig.errorAt path ([], .const c)).toList := by
  rw [errorsAt, Term.nodes, List.filterMap_cons]
  cases sig.errorAt path ([], .const c) <;> rfl

theorem errorsAt_app (path : String) (f : Symbol) (as : List Term) :
    sig.errorsAt path (.app f as) =
      (sig.errorAt path ([], .app f as)).toList ++
        (Term.nodesArgs 0 as).filterMap (sig.errorAt path) := by
  rw [errorsAt, Term.nodes, List.filterMap_cons]
  cases sig.errorAt path ([], .app f as) <;> rfl

/-- The errors of a subterm are found at the path of the subterm. -/
theorem errorAt_under (path : String) (p : Position) (node : Position × Term) :
    sig.errorAt path (Term.under p node) = sig.errorAt (Position.path path p) node := by
  rw [errorAt, errorAt, ← Position.path_append]
  rfl

/-- What is found at a binding: the errors of the bound term, and a warning if the binding is
trivial. -/
def bindingDiagnostics (b : Var × Term) : List (Diagnostic String) :=
  sig.errorsAt (bindingPath b.1) b.2 ++
    if Substitution.isTrivial b then
      [⟨"trivial_binding", .warning, "Variable '" ++ b.1.name ++ "' is bound to itself",
        some (bindingPath b.1)⟩]
    else []

end Signature

namespace Substitution

/-- The bound variables that bound terms bring back, in the order in which they do. -/
def overlap (s : Substitution) : List Var := s.rangeVariables.filter s.contains

/-- The warning about bound variables that come back. -/
def overlapWarning (overlap : List Var) : Diagnostic String :=
  ⟨"not_idempotent", .warning,
    "Bound variables also occur in bound terms: " ++ ", ".intercalate (overlap.map Var.name), none⟩

/-- One warning if any bound variable comes back, and none otherwise. -/
def overlapWarnings (s : Substitution) : List (Diagnostic String) :=
  if s.overlap.isEmpty then [] else [overlapWarning s.overlap]

end Substitution

/-- The warning about a name that is used both ways. -/
def clashWarning (name : String) : Diagnostic String :=
  ⟨"symbol_constant_clash", .warning,
    "'" ++ name ++ "' is used both as a constant and as a nullary function; both render as '" ++
      name ++ "'", none⟩

/-! ## Moved diagnostics -/

/-- A path whose first part, that of the whole, is replaced. -/
def movedPath (root new path : String) : String :=
  new ++ String.ofList (path.toList.drop root.length)

theorem movedPath_append (root new rest : String) :
    movedPath root new (root ++ rest) = new ++ rest := by
  rw [movedPath, String.toList_append, List.drop_left' String.length_toList, String.ofList_toList]

/-- The same diagnostic for a whole that stands at another path. -/
def Diagnostic.moved (root new : String) (d : Diagnostic String) : Diagnostic String :=
  { d with path := d.path.map (movedPath root new) }

theorem Misuse.moved_diagnostic (root new : String) (p : Position) (m : Misuse) :
    (m.diagnostic (Position.path root p)).moved root new = m.diagnostic (Position.path new p) := by
  have hpath : movedPath root new (Position.path root p) = Position.path new p := by
    rw [Position.path_eq_append root, movedPath_append, ← Position.path_eq_append]
  rw [diagnostic, diagnostic, Diagnostic.moved, Option.map_some, hpath]

/-- The same misuses are found wherever the term stands. -/
theorem Signature.map_moved_errorsAt [Declarable α] (sig : Signature α) (root new : String)
    (t : Term) : (sig.errorsAt root t).map (Diagnostic.moved root new) = sig.errorsAt new t := by
  rw [errorsAt, errorsAt, List.map_filterMap]
  refine List.filterMap_congr fun node _ => ?_
  rw [errorAt, errorAt, Option.map_map]
  exact congrArg (Option.map · _) (funext (Misuse.moved_diagnostic root new node.1))

namespace Context

/-! ## Contexts gather findings -/

/-- Adds diagnostics, names used as constants and names used as symbols without arguments. -/
def adding (ctx : Context σ String) (ds : List (Diagnostic String)) (cs ns : List String) :
    Context σ String where
  sig := ctx.sig
  diagnostics := ctx.diagnostics ++ ds
  constants := cs.foldl (fun names c => names.insert c) ctx.constants
  nullary := ns.foldl (fun names n => names.insert n) ctx.nullary

theorem adding_nil (ctx : Context σ String) : ctx.adding [] [] [] = ctx := by
  simp [adding]

theorem adding_adding (ctx : Context σ String) (ds ds' : List (Diagnostic String))
    (cs cs' ns ns' : List String) :
    (ctx.adding ds cs ns).adding ds' cs' ns' = ctx.adding (ds ++ ds') (cs ++ cs') (ns ++ ns') := by
  simp [adding, List.foldl_append]

theorem foldl_warnClash (ctx : Context σ String) (names : List String) :
    names.foldl warnClash ctx = ctx.adding (names.map clashWarning) [] [] := by
  induction names generalizing ctx with
  | nil => exact ctx.adding_nil.symm
  | cons name names ih =>
    have hstep : ctx.warnClash name = ctx.adding [clashWarning name] [] [] := rfl
    rw [List.foldl_cons, ih, hstep, adding_adding]
    rfl

theorem checkIdempotent_eq (ctx : Context (Signature α) String) (s : Substitution) :
    ctx.checkIdempotent s = ctx.adding s.overlapWarnings [] [] := by
  rw [checkIdempotent, Substitution.overlapWarnings, Substitution.overlap]
  cases s.rangeVariables.filter s.contains with
  | nil => exact ctx.adding_nil.symm
  | cons v vs => rfl

variable [Declarable α]

theorem checkConstant_eq (ctx : Context (Signature α) String) (path c : String) :
    ctx.checkConstant path c =
      ctx.adding (ctx.sig.errorAt path ([], .const c)).toList [c] [] := by
  have hsig : (ctx.observeConstant c).sig = ctx.sig := rfl
  rw [checkConstant, Signature.errorAt, Signature.misuse?]
  by_cases hfree : (ctx.sig.declaresConstants && !ctx.sig.declares c) = true
  · simp only [hsig, if_pos hfree]
    rfl
  · simp only [hsig, if_neg hfree]
    simp [adding, observeConstant]

/-- The error noted about a symbol, if there is one, is that of the root of an application. -/
theorem checkSymbol_eq (ctx : Context (Signature α) String) (path : String) (f : Symbol)
    (as : List Term) :
    ctx.checkSymbol path f =
      ctx.adding (ctx.sig.errorAt path ([], .app f as)).toList []
        (if f.isConstant then [f.name] else []) := by
  rw [checkSymbol, Signature.errorAt, Signature.misuse?]
  cases ctx.sig.getSymbol f.name with
  | none => cases f.isConstant <;> rfl
  | some g =>
    by_cases harity : g.arity ≠ f.arity
    · simp only [if_pos harity]
      cases f.isConstant <;> rfl
    · simp only [if_neg harity]
      cases f.isConstant <;> simp [adding, observeNullary]

/-- Going through a term adds the errors of its nodes and the names that it uses. -/
theorem visit_eq (ctx : Context (Signature α) String) (path : String) (t : Term) :
    ctx.visit path t = ctx.adding (ctx.sig.errorsAt path t) t.constants t.nullary := by
  induction t using Term.inductionOn generalizing ctx path with
  | var v =>
    rw [visit, Signature.errorsAt_var, Term.constants_var, Term.nullary_var, adding_nil]
  | const c =>
    rw [visit, checkConstant_eq, Signature.errorsAt_const, Term.constants_const, Term.nullary_const]
  | app f as ih =>
    have hargs : ∀ (ctx : Context (Signature α) String) (i : Nat),
        visitArgs ctx path i as =
          ctx.adding ((Term.nodesArgs i as).filterMap (ctx.sig.errorAt path))
            (as.flatMap Term.constants) (as.flatMap Term.nullary) := by
      induction as with
      | nil => exact fun ctx i => ctx.adding_nil.symm
      | cons a as ihas =>
        intro ctx i
        have htail := ihas fun x hx => ih x (List.mem_cons_of_mem a hx)
        rw [visitArgs, ih a List.mem_cons_self, htail, adding_adding, Term.nodesArgs,
          List.filterMap_append, List.filterMap_map]
        rfl
    rw [visit, hargs, checkSymbol_eq ctx path f as, adding_adding, Signature.errorsAt_app,
      Term.constants_app, Term.nullary_app]
    rfl

theorem checkBinding_eq (ctx : Context (Signature α) String) (b : Var × Term) :
    ctx.checkBinding b =
      ctx.adding (ctx.sig.bindingDiagnostics b) b.2.constants b.2.nullary := by
  rw [checkBinding, Signature.bindingDiagnostics, visit_eq]
  split
  · simp [adding, warning]
  · simp

theorem foldl_checkBinding (ctx : Context (Signature α) String) (bs : List (Var × Term)) :
    bs.foldl checkBinding ctx =
      ctx.adding (bs.flatMap ctx.sig.bindingDiagnostics) (bs.flatMap fun b => b.2.constants)
        (bs.flatMap fun b => b.2.nullary) := by
  induction bs generalizing ctx with
  | nil => exact ctx.adding_nil.symm
  | cons b bs ih =>
    rw [List.foldl_cons, ih, checkBinding_eq, adding_adding]
    rfl

end Context

/-! ## Clashes -/

/-- The names that are among both the constants and the symbols without arguments, as a context
tells them. -/
def clashNames (cs ns : List String) : List String :=
  ((Context.start ()).adding [] cs ns).clashingNames

theorem mem_foldl_insert {names cs : List String} {c : String} :
    c ∈ cs.foldl (fun names c => names.insert c) names ↔ c ∈ names ∨ c ∈ cs := by
  induction cs generalizing names with
  | nil => simp
  | cons d cs ih =>
    rw [List.foldl_cons, ih, List.mem_insert_iff, List.mem_cons]
    tauto

theorem nodup_foldl_insert {names cs : List String} (h : names.Nodup) :
    (cs.foldl (fun names c => names.insert c) names).Nodup := by
  induction cs generalizing names with
  | nil => exact h
  | cons c cs ih => exact ih h.insert

theorem mem_clashNames {cs ns : List String} {c : String} :
    c ∈ clashNames cs ns ↔ c ∈ cs ∧ c ∈ ns := by
  rw [clashNames, Context.clashingNames, List.mem_mergeSort, Context.mem_clashes]
  simp [Context.adding, Context.start, mem_foldl_insert]

theorem nodup_clashNames (cs ns : List String) : (clashNames cs ns).Nodup := by
  rw [clashNames, Context.clashingNames, (List.mergeSort_perm _ _).nodup_iff, Context.clashes]
  split
  · exact (nodup_foldl_insert List.nodup_nil).filter _
  · exact (nodup_foldl_insert List.nodup_nil).filter _

theorem pairwise_clashNames (cs ns : List String) : (clashNames cs ns).Pairwise (· ≤ ·) := by
  have hsorted := @List.pairwise_mergeSort String (fun a b => decide (a ≤ b))
    (fun a b c hab hbc => by simpa using String.le_trans (by simpa using hab) (by simpa using hbc))
    (fun a b => by simpa using String.le_total a b)
    ((Context.start ()).adding [] cs ns).clashes
  rw [clashNames, Context.clashingNames]
  simpa only [decide_eq_true_eq] using hsorted

theorem pairwise_lt_clashNames (cs ns : List String) : (clashNames cs ns).Pairwise (· < ·) := by
  have hne : (clashNames cs ns).Pairwise (· ≠ ·) :=
    List.nodup_iff_pairwise_ne.1 (nodup_clashNames cs ns)
  exact ((pairwise_clashNames cs ns).and hne).imp fun h => Std.lt_of_le_of_ne h.1 h.2

/-- Neither the order of the names nor their number matters. -/
theorem clashNames_congr {cs cs' ns ns' : List String} (hcs : ∀ c, c ∈ cs ↔ c ∈ cs')
    (hns : ∀ n, n ∈ ns ↔ n ∈ ns') : clashNames cs ns = clashNames cs' ns' := by
  have hperm : (clashNames cs ns).Perm (clashNames cs' ns') := by
    rw [List.perm_ext_iff_of_nodup (nodup_clashNames cs ns) (nodup_clashNames cs' ns')]
    intro c
    rw [mem_clashNames, mem_clashNames, hcs, hns]
  exact hperm.eq_of_pairwise (fun _ _ _ _ => String.le_antisymm) (pairwise_clashNames cs ns)
    (pairwise_clashNames cs' ns')

/-! ## Reports -/

variable [Declarable α]

theorem checkTerm_eq (t : Term) (sig : Signature α) :
    checkTerm t sig =
      ⟨t.render, sig.errorsAt "term" t ++ (clashNames t.constants t.nullary).map clashWarning⟩ := by
  rw [checkTerm, Context.visit_eq, Context.warnClashes, Context.foldl_warnClash,
    Context.adding_adding]
  rfl

theorem checkSubstitution_eq (s : Substitution) (sig : Signature α) :
    checkSubstitution s sig =
      ⟨s.render, s.bindings.flatMap sig.bindingDiagnostics ++
        (clashNames (s.bindings.flatMap fun b => b.2.constants)
          (s.bindings.flatMap fun b => b.2.nullary)).map clashWarning ++ s.overlapWarnings⟩ := by
  rw [checkSubstitution, Context.foldl_checkBinding, Context.warnClashes, Context.foldl_warnClash,
    Context.adding_adding, Context.checkIdempotent_eq, Context.adding_adding]
  rfl

/-! ## Errors -/

theorem mem_warnings {r : Report σ} {d : Diagnostic σ} :
    d ∈ r.warnings ↔ d ∈ r.diagnostics ∧ d.severity = .warning := by
  simp [Report.warnings]

theorem Signature.mem_errorsAt {sig : Signature α} {path : String} {t : Term}
    {d : Diagnostic String} : d ∈ sig.errorsAt path t ↔ ∃ node ∈ t.nodes, ∃ m,
      sig.misuse? node.2 = some m ∧ m.diagnostic (Position.path path node.1) = d := by
  simp only [errorsAt, errorAt, List.mem_filterMap, Option.map_eq_some_iff]

theorem filter_error_errorsAt (sig : Signature α) (path : String) (t : Term) :
    ((sig.errorsAt path t).filter fun d => d.severity == .error) = sig.errorsAt path t := by
  refine List.filter_eq_self.2 fun d hd => ?_
  obtain ⟨node, -, m, -, rfl⟩ := Signature.mem_errorsAt.1 hd
  rfl

theorem filter_error_clashWarnings (names : List String) :
    ((names.map clashWarning).filter fun d => d.severity == .error) = [] := by
  rw [List.filter_map, List.map_eq_nil_iff]
  exact List.filter_eq_nil_iff.2 fun name _ => Bool.false_ne_true

theorem filter_error_bindingDiagnostics (sig : Signature α) (b : Var × Term) :
    ((sig.bindingDiagnostics b).filter fun d => d.severity == .error) =
      sig.errorsAt (bindingPath b.1) b.2 := by
  rw [Signature.bindingDiagnostics, List.filter_append, filter_error_errorsAt]
  split
  · exact List.append_nil _
  · exact List.append_nil _

theorem filter_error_overlapWarnings (s : Substitution) :
    (s.overlapWarnings.filter fun d => d.severity == .error) = [] := by
  rw [Substitution.overlapWarnings]
  split <;> rfl

theorem errors_checkTerm (t : Term) (sig : Signature α) :
    (checkTerm t sig).errors = sig.errorsAt "term" t := by
  rw [checkTerm_eq, Report.errors, List.filter_append, filter_error_errorsAt,
    filter_error_clashWarnings, List.append_nil]

theorem errors_checkSubstitution (s : Substitution) (sig : Signature α) :
    (checkSubstitution s sig).errors =
      s.bindings.flatMap fun b => sig.errorsAt (bindingPath b.1) b.2 := by
  rw [checkSubstitution_eq, Report.errors, List.filter_append, List.filter_append,
    filter_error_clashWarnings, filter_error_overlapWarnings, List.append_nil, List.append_nil,
    List.filter_flatMap]
  exact List.flatMap_congr fun b _ => filter_error_bindingDiagnostics sig b

/-- Whether there are errors does not depend on the path: it is the nodes that go against the
signature. -/
theorem errorsAt_eq_nil_iff {sig : Signature α} {path : String} {t : Term} :
    sig.errorsAt path t = [] ↔ ∀ node ∈ t.nodes, sig.misuse? node.2 = none := by
  simp only [Signature.errorsAt, Signature.errorAt, List.filterMap_eq_nil_iff,
    Option.map_eq_none_iff]

end TermAlgebra
