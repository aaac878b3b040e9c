import TermAlgebra.Check

/-!
# Values and the store

Values are what callers hand over and what operations answer.  Those that can be changed are kept in
a store, and the values that stand for them hold their numbers.
-/

namespace TermAlgebra

/-!
## Values

What a caller may hand over and what an operation may answer: plain data, the library's own objects,
and references to the substitutions and contexts of a store.  A number with a fraction is carried as
its literal, in the shortest form that reads back.

What is not a number is equal to nothing, itself included, and yet a collection that holds it knows
it again.  So each occasion on which it is written gives it a mark of its own.
-/

/-- Values of every kind.  A substitution and a context are given by their number in a store. -/
inductive Value where
  | null
  | bool (b : Bool)
  | int (i : Int)
  | float (literal : String)
  | notNumber (mark : Nat)
  | text (s : String)
  | bytes (data : List UInt8)
  | list (items : List Value)
  | tuple (items : List Value)
  | map (entries : List (Value × Value))
  | nameSet (names : List String)
  | symbol (f : Symbol)
  | term (t : Term)
  | equation (e : Equation)
  | signature (sig : Signature Value)
  | report (r : Report Value)
  | substitution (id : Nat)
  | context (id : Nat)
deriving Inhabited

/-- Of the values, texts are names. -/
instance : Declarable Value where
  name?
    | .text s => some s
    | _ => none

namespace Value

/-- The kind of a value. -/
def kind : Value → Kind
  | null => .null
  | bool _ => .bool
  | int _ => .int
  | float _ => .float
  | notNumber _ => .float
  | text _ => .text
  | bytes _ => .bytes
  | list _ => .list
  | tuple _ => .tuple
  | map _ => .map
  | nameSet _ => .nameSet
  | symbol _ => .symbol
  | term (.var _) => .var
  | term (.const _) => .const
  | term (.app _ _) => .app
  | equation _ => .equation
  | signature _ => .signature
  | report _ => .report
  | substitution _ => .substitution
  | context _ => .context

/-- A variable as a value. -/
def ofVar (v : Var) : Value := term (.var v)

/-- Variables as a value. -/
def ofVars (vs : List Var) : Value := tuple (vs.map ofVar)

/-- A binding as a pair. -/
def ofBinding (b : Var × Term) : Value := tuple [ofVar b.1, term b.2]

/-- A report of this library's own checks. -/
def ofReport (r : Report String) : Value := report (r.map text)

/-- A value that may be missing. -/
def toOption : Value → Option Value
  | null => none
  | x => some x

/-- The name of a value that has one: a symbol, a variable or a constant. -/
def name? : Value → Option String
  | symbol f => some f.name
  | term (.var v) => some v.name
  | term (.const c) => some c
  | _ => none

end Value

/-!
## The store

Substitutions and check contexts can be changed after they were made, and several names may refer to
the same one.  The store numbers them in the order of their making; a value that refers to one holds
its number.  Only `setSubstitution` and `setContext` change what is there, and each at one number.

The store also gives out marks, no mark twice.
-/

/-- The substitutions and the contexts made so far, each known by its number, and how many marks
were given out. -/
structure Store where
  substitutions : List Substitution
  contexts : List (Context Value Value)
  marks : Nat
deriving Inhabited

namespace Store

/-- The store in which nothing was made yet. -/
def empty : Store := ⟨[], [], 0⟩

/-- The substitution with a number. -/
def substitution (store : Store) (id : Nat) : Substitution := (store.substitutions[id]?).getD ∅

/-- The context with a number. -/
def context (store : Store) (id : Nat) : Context Value Value :=
  (store.contexts[id]?).getD (Context.start .null)

/-- Adds a substitution and tells its number. -/
def newSubstitution (store : Store) (s : Substitution) : Nat × Store :=
  (store.substitutions.length, { store with substitutions := store.substitutions ++ [s] })

/-- Adds a context and tells its number. -/
def newContext (store : Store) (ctx : Context Value Value) : Nat × Store :=
  (store.contexts.length, { store with contexts := store.contexts ++ [ctx] })

/-- Changes the substitution with a number. -/
def setSubstitution (store : Store) (id : Nat) (s : Substitution) : Store :=
  { store with substitutions := store.substitutions.set id s }

/-- Changes the context with a number. -/
def setContext (store : Store) (id : Nat) (ctx : Context Value Value) : Store :=
  { store with contexts := store.contexts.set id ctx }

/-- Gives out a mark. -/
def newMark (store : Store) : Nat × Store := (store.marks, { store with marks := store.marks + 1 })

/-! ### What changes and what does not -/

/-- A new substitution has a number of its own and leaves the others as they were. -/
theorem substitution_newSubstitution (store : Store) (s : Substitution) {id : Nat}
    (h : id < store.substitutions.length) :
    (store.newSubstitution s).2.substitution id = store.substitution id := by
  simp [substitution, newSubstitution, List.getElem?_append_left h]

/-- A new substitution is found under its number. -/
theorem substitution_newSubstitution_self (store : Store) (s : Substitution) :
    (store.newSubstitution s).2.substitution (store.newSubstitution s).1 = s := by
  simp [substitution, newSubstitution]

/-- A change is seen under the number where it was made. -/
theorem substitution_setSubstitution_self (store : Store) (s : Substitution) {id : Nat}
    (h : id < store.substitutions.length) :
    (store.setSubstitution id s).substitution id = s := by
  simp [substitution, setSubstitution, h]

/-- A change is seen under no other number. -/
theorem substitution_setSubstitution_of_ne (store : Store) (s : Substitution) {id id' : Nat}
    (h : id ≠ id') : (store.setSubstitution id s).substitution id' = store.substitution id' := by
  simp [substitution, setSubstitution, List.getElem?_set_ne h]

theorem substitution_setContext (store : Store) (ctx : Context Value Value) (id id' : Nat) :
    (store.setContext id ctx).substitution id' = store.substitution id' := rfl

theorem substitution_newContext (store : Store) (ctx : Context Value Value) (id : Nat) :
    (store.newContext ctx).2.substitution id = store.substitution id := rfl

theorem substitution_newMark (store : Store) (id : Nat) :
    store.newMark.2.substitution id = store.substitution id := rfl

end Store

end TermAlgebra
