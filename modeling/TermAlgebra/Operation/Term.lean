import TermAlgebra.Operation.Outcome

/-!
# Operations on values, terms and signatures

The operations that show and compare values of any kind, and those that build and read terms,
equations, symbols and signatures.
-/

namespace TermAlgebra

/-!
## Operations on values of any kind

Showing, measuring and comparing values, and describing the library's own faults.
-/

/-- Operations that take values of any kind. -/
inductive GeneralOperation where
  | identity
  | display
  | literal
  | length
  | truth
  | items
  | same
  | describeFault (c : FaultClass)
deriving DecidableEq

namespace GeneralOperation

/-- Describes a fault of class `c` that was raised about `x`: its text, the classes that it belongs
to and the variable that it carries, if it is about a variable bound twice. -/
def describe (store : Store) (c : FaultClass) (x : Value) : Except Fault Value := do
  let classes := FaultClass.described.filter c.isA
  let (message, about) ←
    if c = .duplicateBinding then
      let name ← x.expectName
      Except.ok (Fault.message (.alreadyBound ⟨name⟩), x)
    else Except.ok (x.display store, Value.null)
  return .list [.text message, .list (classes.map fun d => .text d.label), about]

/-- Carries an operation out. -/
def run (store : Store) (op : GeneralOperation) (args : List Value) : Except Fault Outcome :=
  match op with
  | identity => do
    let x ← oneArg args
    return .value x
  | display => do
    let x ← oneArg args
    return .text (x.display store)
  | literal => do
    let x ← oneArg args
    return .text (x.literal store)
  | length => do
    let x ← oneArg args
    let n ← x.length store
    return .value (.int n)
  | truth => do
    let x ← oneArg args
    return .bool (x.truth store)
  | items => do
    let x ← oneArg args
    let xs ← x.items store
    return .value (.list xs)
  | same => do
    let (x, y) ← twoArgs args
    return .bool (x.same store y)
  | describeFault c => do
    let x ← oneArg args
    let description ← describe store c x
    return .value description

end GeneralOperation

/-!
## Operations on terms

Building terms and equations, asking about them and writing them.
-/

/-- Operations that build or read terms, equations and symbols. -/
inductive TermOperation where
  | var
  | const
  | symbol
  | application
  | applyToList
  | applyToArgs
  | applyMethod
  | equation
  | isConstant
  | isTerm
  | same
  | copy
  | vars
  | isGround
  | renderTerm
  | renderEquation
deriving DecidableEq

namespace TermOperation

/-- Whether a value is a term. -/
def isTermValue : Value → Bool
  | .term _ => true
  | _ => false

/-- Whether two values are the same term.  What is no term is the same as nothing. -/
def sameTerm : Value → Value → Bool
  | .term t, .term u => t.same u
  | _, _ => false

/-- Writes an equation. -/
def writeEquation : Value → Except Fault String
  | .equation e => .ok e.render
  | x => .error (.missingField x.kind "lhs")

/-- A symbol of which `field` is asked. -/
def symbolWith (field : String) : Value → Except Fault Symbol
  | .symbol f => .ok f
  | x => .error (.missingField x.kind field)

/-- Carries an operation out. -/
def run (store : Store) (op : TermOperation) (args : List Value) : Except Fault Outcome :=
  match op with
  | var => do
    let name ← oneArg args
    let v ← Var.ofValue name
    return .term (.var v)
  | const => do
    let name ← oneArg args
    let t ← Term.constOfValue name
    return .term t
  | symbol => do
    let (name, arity) ← twoArgs args
    let f ← Symbol.ofValues store name arity
    return .value (.symbol f)
  | application => do
    let (head, xs) ← twoArgs args
    let t ← Term.ofObjects (.value head) (.value xs)
    return .term t
  | applyToList => do
    let (head, xs) ← twoArgs args
    let t ← Term.applyToList (.value head) (.value xs)
    return .term t
  | applyToArgs => do
    let (head, xs) ← argAndMore args
    let t ← Term.applyToArgs (.value head) (xs.map .value)
    return .term t
  | applyMethod => do
    let (head, xs) ← argAndMore args
    let f ← symbolWith "apply_args" head
    let t ← f.applyToArgs (xs.map .value)
    return .term t
  | equation => do
    let (lhs, rhs) ← twoArgs args
    let e ← Equation.ofValues lhs rhs
    return .value (.equation e)
  | isConstant => do
    let x ← oneArg args
    let f ← symbolWith "is_constant" x
    return .bool f.isConstant
  | isTerm => do
    let x ← oneArg args
    return .bool (isTermValue x)
  | same => do
    let (x, y) ← twoArgs args
    return .bool (sameTerm x y)
  | copy => do
    let x ← oneArg args
    let t ← x.expectTerm
    let t ← t.rebuild
    return .term t
  | vars => do
    let x ← oneArg args
    let t ← x.expectTerm
    return .value (.ofVars t.vars)
  | isGround => do
    let x ← oneArg args
    let t ← x.expectTerm
    return .bool t.isGround
  | renderTerm => do
    let x ← oneArg args
    let t ← x.writtenTerm store
    return .text t.render
  | renderEquation => do
    let x ← oneArg args
    let s ← writeEquation x
    return .text s

end TermOperation

/-! ## Operations on signatures -/

/-- Operations that build or read signatures. -/
inductive SignatureOperation where
  | ofSymbols
  | ofMap
  | getSymbol
  | symbolNames
  | declaresConstants
deriving DecidableEq

namespace SignatureOperation

/-- The symbol that a signature declares under a key.  A key that is no name is declared by none. -/
def symbolUnder (sig : Signature Value) (key : Value) : Except Fault Value :=
  match key with
  | .text name => .ok (((sig.getSymbol name).map Value.symbol).getD .null)
  | x =>
    match x.unhashable? with
    | some kind => .error (.unhashable kind)
    | none => .ok .null

/-- Carries an operation out. -/
def run (store : Store) (op : SignatureOperation) (args : List Value) : Except Fault Outcome :=
  match op with
  | ofSymbols => do
    let (symbols, constants) ← oneOrTwoArgs (.list []) args
    let sig ← Signature.ofValues store symbols constants
    return .value (.signature sig)
  | ofMap => do
    let (entries, constants) ← oneOrTwoArgs (.list []) args
    let sig ← Signature.ofEntries store entries constants
    return .value (.signature sig)
  | getSymbol => do
    let (x, key) ← twoArgs args
    let sig ← x.signatureWith "get_symbol"
    let found ← symbolUnder sig key
    return .value found
  | symbolNames => do
    let x ← oneArg args
    let sig ← x.signatureWith "symbol_names"
    return .value (.nameSet sig.symbolNames)
  | declaresConstants => do
    let x ← oneArg args
    let sig ← x.signatureWith "declares_constants"
    return .bool sig.declaresConstants

end SignatureOperation

end TermAlgebra
