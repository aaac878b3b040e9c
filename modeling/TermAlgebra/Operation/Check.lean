import TermAlgebra.Operation.Outcome

/-!
# Operations that check

Checks of values of any kind against a signature, and the contexts that checks are made in.  What is
no signature is noticed only where a declaration is asked for: at a constant or an application,
never at a variable.  A context is never asked, so it is made for anything, and takes any findings.
-/

namespace TermAlgebra

/-- Operations that check, and operations on contexts. -/
inductive CheckOperation where
  | checkTerm
  | checkSubstitution
  | report
  | context
  | error
  | warning
  | observeConstant
  | observeNullary
  | clashingNames
deriving DecidableEq

namespace CheckOperation

/-- The declaration that the first node of a term asks a signature for. -/
def declarationAsked : Term → Option String
  | .var _ => none
  | .const _ => some "declares_constants"
  | .app _ _ => some "get_symbol"

/-- The signature to check terms against.  Something else serves as long as no term asks it for a
declaration. -/
def signatureFor (sig : Value) (terms : List Term) : Except Fault (Signature Value) :=
  match sig with
  | .signature sig => .ok sig
  | x =>
    match terms.findSome? declarationAsked with
    | some field => .error (.missingField x.kind field)
    | none => .ok ⟨[], []⟩

/-- Checks a value that should be a term. -/
def checkTermValue (store : Store) (x sig : Value) : Except Fault (Report String) :=
  match x with
  | .term t => do
    let sig ← signatureFor sig [t]
    return TermAlgebra.checkTerm t sig
  | x =>
    .ok ⟨x.literal store, [⟨"term_shape", .error, "Expected Term, got " ++ x.kind.label, "term"⟩]⟩

/-- Goes through a collection of pairs as if they were bindings: each needs a name on the left and a
term on the right that can be checked. -/
def checkPairs (store : Store) (sig : Value) : List Value → Except Fault Unit
  | [] => .ok ()
  | x :: xs => do
    let (v, t) ← x.pair store
    let _ ← v.expectName
    let t ← t.writtenTerm store
    let _ ← signatureFor sig [t]
    checkPairs store sig xs

/-- Checks a value that should be a substitution.  Any collection of pairs passes for one until its
variables are asked for. -/
def checkSubstitutionValue (store : Store) (x sig : Value) : Except Fault (Report String) :=
  match x with
  | .substitution id => do
    let s := store.substitution id
    let sig ← signatureFor sig s.terms
    return TermAlgebra.checkSubstitution s sig
  | x => do
    let xs ← x.items store
    checkPairs store sig xs
    .error (.missingField x.kind "range_variables")

/-- The severity that a value names. -/
def severityOf (store : Store) (x : Value) : Except Fault Severity :=
  match x with
  | .text name =>
    match Severity.ofLabel? name with
    | some s => .ok s
    | none => .error (.unknownSeverity (x.literal store))
  | x => .error (.unknownSeverity (x.literal store))

/-- The diagnostic given by a check, a severity, a message and a path. -/
def diagnosticOf (store : Store) (x : Value) : Except Fault (Diagnostic Value) := do
  let (check, severity, message, path) ← x.four store
  let severity ← severityOf store severity
  return ⟨check, severity, message, path.toOption⟩

/-- The diagnostics given by a list. -/
def diagnosticsOf (store : Store) : List Value → Except Fault (List (Diagnostic Value))
  | [] => .ok []
  | x :: xs => do
    let d ← diagnosticOf store x
    let ds ← diagnosticsOf store xs
    return d :: ds

/-- Adds a finding to a context. -/
def addFinding (store : Store) (method : String)
    (note : Context Value Value → Value → Value → Option Value → Context Value Value)
    (args : List Value) : Except Fault Outcome := do
  let (ctx, check, message, path) ←
    match args with
    | [ctx, check, message] => Except.ok (ctx, check, message, Value.null)
    | [ctx, check, message, path] => Except.ok (ctx, check, message, path)
    | _ => Except.error .wrongArgCount
  let id ← ctx.contextId method
  return ⟨.setContext id (note (store.context id) check message path.toOption), []⟩

/-- Adds an observed name to a context.  Whatever can be a member of a set passes for a name. -/
def addName (store : Store) (method : String)
    (observe : Context Value Value → Value → Context Value Value) (args : List Value) :
    Except Fault Outcome := do
  let (ctx, name) ← twoArgs args
  let id ← ctx.contextId method
  match name.unhashable? with
  | some kind => .error (.unhashable kind)
  | none => return ⟨.setContext id (observe (store.context id) name), []⟩

/-- Carries an operation out. -/
def run (store : Store) (op : CheckOperation) (args : List Value) : Except Fault Outcome :=
  match op with
  | checkTerm => do
    let (x, sig) ← twoArgs args
    let r ← checkTermValue store x sig
    return .report r
  | checkSubstitution => do
    let (x, sig) ← twoArgs args
    let r ← checkSubstitutionValue store x sig
    return .report r
  | report => do
    let (subject, diagnostics) ← twoArgs args
    let xs ← diagnostics.items store
    let ds ← diagnosticsOf store xs
    return .value (.report ⟨subject, ds⟩)
  | context => do
    let x ← oneArg args
    return ⟨.makeContext (.start x), []⟩
  | error => addFinding store "error" Context.error args
  | warning => addFinding store "warning" Context.warning args
  | observeConstant => addName store "observe_constant" Context.observeConstant args
  | observeNullary => addName store "observe_nullary" Context.observeNullary args
  | clashingNames => do
    let x ← oneArg args
    let id ← x.contextId "clashing_names"
    let names ← (store.context id).clashingValues
    return .value (.list names)

end CheckOperation

end TermAlgebra
