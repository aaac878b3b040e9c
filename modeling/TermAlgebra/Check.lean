import TermAlgebra.Substitution
import TermAlgebra.Text.Quoted

/-!
# Checks

Signatures say which symbols and constants may be used.  A check against one goes through terms node
by node, notes diagnostics in a context and hands over a report.  All bound terms of a substitution
are checked in one context.
-/

namespace TermAlgebra

/-!
## Diagnostics and reports

A check does not stop at the first problem: it collects diagnostics and hands over a report.  Only
errors make a report bad; warnings point at what is legal but unusual.

The checks of this library write their diagnostics in strings.  Other checks may put anything else
there, so what a diagnostic is written in is a parameter.
-/

section

/-- How serious a diagnostic is. -/
inductive Severity where
  | error
  | warning
deriving DecidableEq, Inhabited

namespace Severity

/-- The name of a severity. -/
def label : Severity → String
  | .error => "error"
  | .warning => "warning"

/-- The severity of a name. -/
def ofLabel? (name : String) : Option Severity :=
  [error, warning].find? fun s => s.label == name

end Severity

/-- One finding: which check made it, how serious it is, what it says and, if it belongs to one
place, where. -/
structure Diagnostic (α : Type) where
  check : α
  severity : Severity
  message : α
  path : Option α
deriving DecidableEq, Inhabited

/-- The findings about one subject. -/
structure Report (α : Type) where
  subject : α
  diagnostics : List (Diagnostic α)
deriving DecidableEq, Inhabited

variable {α β : Type}

/-- The same diagnostic in other words. -/
def Diagnostic.map (f : α → β) (d : Diagnostic α) : Diagnostic β :=
  ⟨f d.check, d.severity, f d.message, d.path.map f⟩

namespace Report

/-- The findings that are errors. -/
def errors (r : Report α) : List (Diagnostic α) :=
  r.diagnostics.filter fun d => d.severity == .error

/-- The findings that are warnings. -/
def warnings (r : Report α) : List (Diagnostic α) :=
  r.diagnostics.filter fun d => d.severity == .warning

/-- A subject without errors is well formed. -/
def isWellFormed (r : Report α) : Bool := r.errors.isEmpty

/-- The same report in other words. -/
def map (f : α → β) (r : Report α) : Report β := ⟨f r.subject, r.diagnostics.map (·.map f)⟩

/-- The line that sums a report up: the number of errors and the checks that made them. -/
def summary (r : Report String) : String :=
  r.subject ++ ": " ++ toString r.errors.length ++ " error(s): " ++
    Text.quoteList (r.errors.map Diagnostic.check)

end Report

end

/-!
## Signatures

A signature lists the function symbols that terms may use, at most one for each name, and the
constants that they may use.  A signature that declares no constant leaves all constants free.

Whatever has an equality can be declared as a constant, but only a name is ever met in a term: a
declared constant that is no name permits nothing, yet it makes constants subject to declaration.
-/

/-- Declared symbols, in the order of declaration, and declared constants. -/
structure Signature (α : Type) where
  symbols : List Symbol
  constants : List α
deriving DecidableEq, Inhabited

/-- What can be declared as a constant: some of it is the name of a constant. -/
class Declarable (α : Type) where
  /-- The constant that is declared, if one is. -/
  name? : α → Option String

instance : Declarable String := ⟨some⟩

namespace Signature

variable {α : Type}

/-- The symbol declared under a name. -/
def getSymbol (sig : Signature α) (name : String) : Option Symbol :=
  sig.symbols.find? fun f => f.name == name

/-- The names of the declared symbols. -/
def symbolNames (sig : Signature α) : List String := sig.symbols.map Symbol.name

/-- Whether constants have to be declared. -/
def declaresConstants (sig : Signature α) : Bool := !sig.constants.isEmpty

/-- Whether the constant of a name is declared. -/
def declares [Declarable α] (sig : Signature α) (c : String) : Bool :=
  sig.constants.any fun a => Declarable.name? a == some c

theorem declares_eq_true_iff [Declarable α] (sig : Signature α) (c : String) :
    sig.declares c = true ↔ ∃ a ∈ sig.constants, Declarable.name? a = some c := by
  simp [declares]

end Signature

/-!
## The context of a check

What a check has found so far: its diagnostics in the order in which they were made, and the names
it has seen used as a constant and as a symbol without arguments.  A name used both ways clashes,
since both uses are written alike.

A context keeps what is checked against, of type `σ`, and does not look into it.  The names and the
diagnostics are strings in the checks of this library and anything else in those of others.
-/

/-- What is checked against, and what the check has found so far. -/
structure Context (σ α : Type) where
  sig : σ
  diagnostics : List (Diagnostic α)
  constants : List α
  nullary : List α
deriving DecidableEq, Inhabited

namespace Context

variable {σ α : Type}

/-- The context of a check that has not begun. -/
def start (sig : σ) : Context σ α := ⟨sig, [], [], []⟩

/-- Notes an error. -/
def error (ctx : Context σ α) (check message : α) (path : Option α) : Context σ α :=
  { ctx with diagnostics := ctx.diagnostics ++ [⟨check, .error, message, path⟩] }

/-- Notes a warning. -/
def warning (ctx : Context σ α) (check message : α) (path : Option α) : Context σ α :=
  { ctx with diagnostics := ctx.diagnostics ++ [⟨check, .warning, message, path⟩] }

/-- Notes a name used as a constant. -/
def observeConstant [BEq α] (ctx : Context σ α) (name : α) : Context σ α :=
  { ctx with constants := ctx.constants.insert name }

/-- Notes a name used as a symbol without arguments. -/
def observeNullary [BEq α] (ctx : Context σ α) (name : α) : Context σ α :=
  { ctx with nullary := ctx.nullary.insert name }

/-- The names used both ways, in no particular order.  They are taken from the smaller of the two
sets, and from the second if the sets are equally large. -/
def clashes [BEq α] (ctx : Context σ α) : List α :=
  if ctx.constants.length < ctx.nullary.length then ctx.constants.filter ctx.nullary.contains
  else ctx.nullary.filter ctx.constants.contains

theorem mem_clashes [BEq α] [LawfulBEq α] (ctx : Context σ α) (name : α) :
    name ∈ ctx.clashes ↔ name ∈ ctx.constants ∧ name ∈ ctx.nullary := by
  unfold clashes
  split <;> simp [and_comm]

/-- The names used both ways, in the order of their code points. -/
def clashingNames (ctx : Context σ String) : List String := ctx.clashes.mergeSort fun a b => a ≤ b

/-- The warning about a name that is used both ways. -/
def warnClash (ctx : Context σ String) (name : String) : Context σ String :=
  ctx.warning "symbol_constant_clash"
    ("'" ++ name ++ "' is used both as a constant and as a nullary function; both render as '" ++
      name ++ "'") none

/-- Warns about every name that is used both ways. -/
def warnClashes (ctx : Context σ String) : Context σ String :=
  ctx.clashingNames.foldl warnClash ctx

/-- Hands over what was found about a subject. -/
def report (ctx : Context σ α) (subject : α) : Report α := ⟨subject, ctx.diagnostics⟩

end Context

variable {α : Type}

/-!
## Checking a term against a signature

Every node of the term is looked at once, before its arguments, and every error is noted with the
path of its node: the path of the whole, followed by `.args[i]` for each step down.
-/

namespace Context

/-- Checks that a constant is declared, if constants have to be. -/
def checkConstant [Declarable α] (ctx : Context (Signature α) String) (path c : String) :
    Context (Signature α) String :=
  let ctx := ctx.observeConstant c
  if ctx.sig.declaresConstants && !ctx.sig.declares c then
    ctx.error "constant_declared" ("Constant '" ++ c ++ "' is not declared") (some path)
  else ctx

/-- Checks that a symbol is declared with the arity that it is used with. -/
def checkSymbol (ctx : Context (Signature α) String) (path : String) (f : Symbol) :
    Context (Signature α) String :=
  let ctx :=
    match ctx.sig.getSymbol f.name with
    | none =>
      ctx.error "symbol_declared" ("Function '" ++ f.name ++ "' is not declared") (some path)
    | some g =>
      if g.arity ≠ f.arity then
        ctx.error "symbol_arity"
          ("Function '" ++ f.name ++ "' is declared with arity " ++ toString g.arity ++
            ", used with arity " ++ toString f.arity) (some path)
      else ctx
  if f.isConstant then ctx.observeNullary f.name else ctx

mutual

/-- Checks every node of the term at a path. -/
def visit [Declarable α] (ctx : Context (Signature α) String) (path : String) :
    Term → Context (Signature α) String
  | .var _ => ctx
  | .const c => ctx.checkConstant path c
  | .app f as => visitArgs (ctx.checkSymbol path f) path 0 as

/-- Checks the arguments from index `i` on of the node at a path. -/
def visitArgs [Declarable α] (ctx : Context (Signature α) String) (path : String) (i : Nat) :
    List Term → Context (Signature α) String
  | [] => ctx
  | a :: as => visitArgs (visit ctx (argPath path i) a) path (i + 1) as

end

end Context

/-- Checks a term against a signature. -/
def checkTerm [Declarable α] (t : Term) (sig : Signature α) : Report String :=
  (((Context.start sig).visit "term" t).warnClashes).report t.render

/-!
## Checking a substitution against a signature

All bound terms are checked in one context, so that a name used one way in one term and the other
way in another clashes too.  A variable bound to itself and a substitution that is not idempotent
are legal and only warned about.
-/

namespace Context

/-- Checks the bound term of a binding, and warns if the binding is trivial. -/
def checkBinding [Declarable α] (ctx : Context (Signature α) String) (b : Var × Term) :
    Context (Signature α) String :=
  let path := bindingPath b.1
  let ctx := ctx.visit path b.2
  if Substitution.isTrivial b then
    ctx.warning "trivial_binding" ("Variable '" ++ b.1.name ++ "' is bound to itself") (some path)
  else ctx

/-- Warns if bound variables come back in bound terms, and names them. -/
def checkIdempotent (ctx : Context (Signature α) String) (s : Substitution) :
    Context (Signature α) String :=
  match s.rangeVariables.filter s.contains with
  | [] => ctx
  | overlap =>
    ctx.warning "not_idempotent"
      ("Bound variables also occur in bound terms: " ++
        ", ".intercalate (overlap.map Var.name)) none

end Context

/-- Checks a substitution against a signature. -/
def checkSubstitution [Declarable α] (s : Substitution) (sig : Signature α) : Report String :=
  let ctx := s.bindings.foldl Context.checkBinding (Context.start sig)
  (ctx.warnClashes.checkIdempotent s).report s.render

end TermAlgebra
