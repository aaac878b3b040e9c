import TermAlgebra.Operation.Check
import TermAlgebra.Operation.Substitution
import TermAlgebra.Operation.Term

/-!
# Sessions

All operations under one type, the expressions that say what they are given, and the steps in which
they are carried out one after the other.
-/

namespace TermAlgebra

/-!
## Operations

All operations of the library under one type.  An operation takes values of any kind, refuses those
that it has no use for, and otherwise says what it asks for.
-/

/-- The operations, sorted by what they deal with. -/
inductive Operation where
  | general (op : GeneralOperation)
  | term (op : TermOperation)
  | substitution (op : SubstitutionOperation)
  | signature (op : SignatureOperation)
  | check (op : CheckOperation)
deriving DecidableEq

/-- Carries an operation out on its arguments. -/
def Operation.run (store : Store) (op : Operation) (args : List Value) : Except Fault Outcome :=
  match op with
  | general op => op.run store args
  | term op => op.run store args
  | substitution op => op.run store args
  | signature op => op.run store args
  | check op => op.run store args

/-!
## Expressions

How the arguments of an operation are given: an expression says how to build a value, from the
inside outwards and from left to right, through the validating constructors.  A register stands for
the value that it holds, so an expression that names one shares its object; an expression for a
substitution makes a new one.
-/

/-- The values held by names, in the order in which the names were first set. -/
abbrev Registers := List (String × Value)

/-- Expressions for values. -/
inductive Expression where
  | null
  | bool (b : Bool)
  | int (i : Int)
  | float (literal : String)
  | text (s : String)
  | bytes (data : List UInt8)
  | list (items : List Expression)
  | tuple (items : List Expression)
  | map (entries : List (Expression × Expression))
  | var (name : Expression)
  | const (name : Expression)
  | symbol (name arity : Expression)
  | call (name : Expression) (args : List Expression)
  | application (head args : Expression)
  | applyTo (head : Expression) (args : List Expression)
  | chain (name : Expression) (count : Nat) (inner : Expression)
  | equation (lhs rhs : Expression)
  | substitution (pairs : List (Expression × Expression))
  | signature (symbols constants : List Expression)
  | register (name : String)
deriving Inhabited

/-- Building values may fail and may add objects to the store. -/
abbrev Build := StateT Store (Except Fault)

namespace Expression

/-- Wraps a value in a symbol of one argument, `count` times. -/
def wrap (f : Symbol) : Nat → Value → Except Fault Value
  | 0, x => .ok x
  | count + 1, x => do
    let t ← f.applyTo [.value x]
    wrap f count (.term t)

/-- The value that a register holds. -/
def readRegister (registers : Registers) (name : String) : Except Fault Value :=
  match registers.lookup name with
  | some x => .ok x
  | none => .error (.unboundRegister name)

/-- The table that arises by setting keys one after the other, if all of them can be keys. -/
def tableOf (entries : List (Value × Value)) : Except Fault (List (Value × Value)) :=
  match Value.unhashableItem? (entries.map Prod.fst) with
  | some kind => .error (.unhashable kind)
  | none => .ok (Entries.ofList (· == ·) entries)

/-- The value of a literal with a fraction. -/
def makeFloat (literal : String) : Build Value := do
  if literal = Decimal.notNumber then
    let (mark, store) := (← get).newMark
    set store
    return .notNumber mark
  else return .float literal

/-- Wraps a value `count` times in the symbol of a name and one argument.  The symbol is made only
when it is needed. -/
def makeChain (name : Value) (count : Nat) (x : Value) : Build Value := do
  if count = 0 then return x
  else
    let f ← Symbol.ofValues (← get) name (.int 1)
    wrap f count x

/-- Makes the substitution with the given bindings. -/
def makeSubstitution (pairs : List (Value × Value)) : Build Value := do
  let s ← Substitution.empty.addEntries pairs
  let (id, store) := (← get).newSubstitution s
  set store
  return .substitution id

mutual

/-- The value of an expression. -/
def eval (registers : Registers) : Expression → Build Value
  | null => return .null
  | bool b => return .bool b
  | int i => return .int i
  | float l => makeFloat l
  | text s => return .text s
  | bytes data => return .bytes data
  | list es => do
    let xs ← evalItems registers es
    return .list xs
  | tuple es => do
    let xs ← evalItems registers es
    return .tuple xs
  | map es => do
    let entries ← evalPairs registers es
    let table ← tableOf entries
    return .map table
  | var e => do
    let name ← eval registers e
    let v ← Var.ofValue name
    return .ofVar v
  | const e => do
    let name ← eval registers e
    let t ← Term.constOfValue name
    return .term t
  | symbol e e' => do
    let name ← eval registers e
    let arity ← eval registers e'
    let f ← Symbol.ofValues (← get) name arity
    return .symbol f
  | call e es => do
    let xs ← evalItems registers es
    let name ← eval registers e
    let f ← Symbol.ofValues (← get) name (.int xs.length)
    let t ← f.applyTo (xs.map .value)
    return .term t
  | application e e' => do
    let head ← eval registers e
    let args ← eval registers e'
    let t ← Term.ofObjects (.value head) (.value args)
    return .term t
  | applyTo e es => do
    let head ← eval registers e
    let args ← evalItems registers es
    let t ← Term.applyToArgs (.value head) (args.map .value)
    return .term t
  | chain e count inner => do
    let x ← eval registers inner
    let name ← eval registers e
    makeChain name count x
  | equation e e' => do
    let lhs ← eval registers e
    let rhs ← eval registers e'
    let equation ← Equation.ofValues lhs rhs
    return .equation equation
  | substitution es => do
    let pairs ← evalPairs registers es
    makeSubstitution pairs
  | signature es es' => do
    let symbols ← evalItems registers es
    let constants ← evalItems registers es'
    let sig ← Signature.ofValues (← get) (.list symbols) (.list constants)
    return .signature sig
  | register name => do
    let x ← readRegister registers name
    return x

/-- The values of several expressions, from left to right. -/
def evalItems (registers : Registers) : List Expression → Build (List Value)
  | [] => return []
  | e :: es => do
    let x ← eval registers e
    let xs ← evalItems registers es
    return x :: xs

/-- The values of pairs of expressions, from left to right. -/
def evalPairs (registers : Registers) :
    List (Expression × Expression) → Build (List (Value × Value))
  | [] => return []
  | (e, e') :: es => do
    let x ← eval registers e
    let y ← eval registers e'
    let pairs ← evalPairs registers es
    return (x, y) :: pairs

end

end Expression

/-!
## Steps and registers

A session is a list of steps.  Each step builds its arguments, carries an operation out on them and
may put the answer into a register.  A step that fails leaves everything as it was, and the session
goes on.
-/

/-- An operation, expressions for its arguments and the register that the answer goes into. -/
structure Step where
  op : Operation
  args : List Expression
  register : Option String

/-- What a step answers: why it failed, or a value with the notes beside it. -/
abbrev Answer := Except Fault (Value × List Note)

/-- The objects made so far and the values held by registers. -/
structure State where
  store : Store
  registers : Registers
deriving Inhabited

namespace State

/-- The state before the first step. -/
def start : State := ⟨Store.empty, []⟩

/-- Puts a value into a register, if one is named. -/
def assign (registers : Registers) (register : Option String) (x : Value) : Registers :=
  match register with
  | some name => Entries.set (· == ·) name x registers
  | none => registers

/-- Builds the arguments of a step and carries its operation out, without committing to it: the
outcome, and the store with the objects that the arguments made. -/
def outcome (state : State) (step : Step) : Except Fault (Outcome × Store) := do
  let (args, store) ← (Expression.evalItems state.registers step.args).run state.store
  let outcome ← step.op.run store args
  return (outcome, store)

/-- Takes one step. -/
def step (state : State) (step : Step) : Answer × State :=
  match state.outcome step with
  | .error fault => (.error fault, state)
  | .ok (outcome, store) =>
    let (x, store) := outcome.action.commit store
    (.ok (x, outcome.notes), ⟨store, assign state.registers step.register x⟩)

/-- Takes the steps of a session: after each its answer and the state. -/
def run (state : State) : List Step → List (Answer × State)
  | [] => []
  | s :: steps =>
    let (answer, state) := state.step s
    (answer, state) :: state.run steps

/-- The state after a session. -/
def after (state : State) (steps : List Step) : State :=
  steps.foldl (fun state s => (state.step s).2) state

/-- The registers that hold a substitution, with its written form. -/
def writtenSubstitutions (state : State) : List (String × String) :=
  state.registers.filterMap fun r =>
    match r.2 with
    | .substitution id => some (r.1, (state.store.substitution id).render)
    | _ => none

end State

end TermAlgebra
