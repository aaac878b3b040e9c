import TermAlgebra.Value.Literal

/-!
# Building from values

What is asked of values of any kind, and what is built from them: names, terms, equations,
substitutions, tables and signatures.
-/

namespace TermAlgebra

/-!
## Entries

A table as a list of entries with distinct keys, in the order in which the keys came.  Setting a key
again replaces its value and keeps its place, and the key that came first stays.
-/

namespace Entries

variable {κ α : Type}

/-- Sets the value of a key. -/
def set (same : κ → κ → Bool) (k : κ) (x : α) : List (κ × α) → List (κ × α)
  | [] => [(k, x)]
  | e :: rest => if same e.1 k then (e.1, x) :: rest else e :: set same k x rest

/-- The table that arises by setting keys one after the other. -/
def ofList (same : κ → κ → Bool) (entries : List (κ × α)) : List (κ × α) :=
  entries.foldl (fun table e => set same e.1 e.2 table) []

end Entries

/-!
## Arguments of the right kind

What an operation asks of the values it is given: each function accepts the values of one kind and
refuses all others, naming the kind it got.
-/

namespace Value

/-- A value that has to be a term. -/
def expectTerm : Value → Except Fault Term
  | term t => .ok t
  | x => .error (.unexpected .term x.kind)

/-- A value that has to be a variable. -/
def expectVar : Value → Except Fault Var
  | term (.var v) => .ok v
  | x => .error (.unexpected .variable x.kind)

/-- A value that has to be an equation. -/
def expectEquation : Value → Except Fault Equation
  | equation e => .ok e
  | x => .error (.unexpected .equation x.kind)

/-- A value that has to be a substitution. -/
def expectSubstitution (store : Store) : Value → Except Fault Substitution
  | substitution id => .ok (store.substitution id)
  | x => .error (.unexpected .substitution x.kind)

/-- A value that has to be a pair, as bindings are listed. -/
def expectPair : Value → Except Fault (Value × Value)
  | tuple [x, y] => .ok (x, y)
  | x => .error (.unexpected .binding x.kind)

/-- A value that has to have a name. -/
def expectName (x : Value) : Except Fault String :=
  match x.name? with
  | some name => .ok name
  | none => .error (.missingField x.kind "name")

/-- The number of a substitution on which `method` is called. -/
def substitutionId (method : String) : Value → Except Fault Nat
  | substitution id => .ok id
  | x => .error (.missingField x.kind method)

/-- The number of a context on which `method` is called. -/
def contextId (method : String) : Value → Except Fault Nat
  | context id => .ok id
  | x => .error (.missingField x.kind method)

/-- A signature of which `field` is read. -/
def signatureWith (field : String) : Value → Except Fault (Signature Value)
  | signature sig => .ok sig
  | x => .error (.missingField x.kind field)

/-- The entries of a map, as anything else has none. -/
def mapEntries : Value → Except Fault (List (Value × Value))
  | map es => .ok es
  | x => .error (.missingField x.kind "items")

/-- A value met where only a term can be written. -/
def writtenTerm (store : Store) : Value → Except Fault Term
  | term t => .ok t
  | x => .error (.unreachable (x.literal store))

end Value

/-!
## Validating constructors

Each takes values of any kind and either builds what it is named for or reports the first thing that
is wrong.
-/

/-! ### Names and symbols -/

/-- A value that has to be a name. -/
def Value.expectText (role : NameRole) : Value → Except Fault String
  | .text s => .ok s
  | x => .error (.nameNotText role x.kind)

/-- The variable of a name. -/
def Var.ofValue (name : Value) : Except Fault Var := return ⟨← name.expectText .variable⟩

/-- The constant of a name. -/
def Term.constOfValue (name : Value) : Except Fault Term :=
  return .const (← name.expectText .constant)

/-- A value that has to be a number of arguments. -/
def Value.expectArity (store : Store) : Value → Except Fault Nat
  | .int (.ofNat n) => .ok n
  | x => .error (.arityNotNatural (x.literal store))

/-- The symbol of a name and a number of arguments. -/
def Symbol.ofValues (store : Store) (name arity : Value) : Except Fault Symbol := do
  let name ← name.expectText .symbol
  let arity ← arity.expectArity store
  return ⟨name, arity⟩

/-! ### Applications

What a symbol is applied to need not be a value of this library.  Any class may declare that its
objects are sequences, and all sequences but texts can stand as argument lists.  Of an object from
elsewhere only the name of its class is looked at, and what it lists, if it is a sequence.
-/

/-- Whatever may be handed over where a symbol is applied: a value, or an object of a class that is
not known here.  A sequence is taken to list the same items, as many as it counts, each time that it
is gone through. -/
inductive Object where
  | value (x : Value)
  | sequence (className : String) (items : List Object)
  | other (className : String)
deriving Inhabited

namespace Object

/-- The kind of an object. -/
def kind : Object → Kind
  | value x => x.kind
  | sequence className _ => .foreign className
  | other className => .foreign className

/-- A term as an object. -/
@[match_pattern] abbrev term (t : Term) : Object := value (.term t)

/-- Arguments given one by one, as they arrive. -/
def tuple (items : List Object) : Object := sequence Kind.tuple.label items

/-- The items of an object that can stand as an argument list.  Bytes list numbers. -/
def items? : Object → Option (List Object)
  | value (.list xs) => some (xs.map value)
  | value (.tuple xs) => some (xs.map value)
  | value (.bytes data) => some (data.map fun b => value (.int b.toNat))
  | sequence _ items => some items
  | _ => none

/-- An object that has to be a symbol. -/
def expectSymbol : Object → Except Fault Symbol
  | value (.symbol f) => .ok f
  | x => .error (.unexpected .symbol x.kind)

end Object

/-- The arguments of `f` from index `i` on, all of which have to be terms. -/
def Symbol.argsOf (f : Symbol) (i : Nat) : List Object → Except Fault (List Term)
  | [] => .ok []
  | .term t :: xs => do
    let ts ← f.argsOf (i + 1) xs
    return t :: ts
  | x :: _ => .error (.argNotTerm i f.name x.kind)

/-- Applies a symbol to objects that have to be as many terms as it takes. -/
def Symbol.applyTo (f : Symbol) (args : List Object) : Except Fault Term := do
  let args ← f.argsOf 0 args
  f.apply args

/-- The application of a head to an argument list. -/
def Term.ofObjects (head args : Object) : Except Fault Term :=
  match head with
  | .value (.symbol f) =>
    match args.items? with
    | some xs => f.applyTo xs
    | none => .error (.argsNotSequence args.kind)
  | x => .error (.headNotSymbol x.kind)

/-- The application of what has to be a symbol to an argument list. -/
def Term.applyToList (head args : Object) : Except Fault Term := do
  let f ← head.expectSymbol
  Term.ofObjects (.value (.symbol f)) args

/-- The application of what has to be a symbol to arguments given one by one. -/
def Term.applyToArgs (head : Object) (args : List Object) : Except Fault Term :=
  Term.applyToList head (.tuple args)

/-- The application of a symbol to arguments given one by one. -/
def Symbol.applyToArgs (f : Symbol) (args : List Object) : Except Fault Term :=
  Term.applyToList (.value (.symbol f)) (.tuple args)

/-! ### Equations -/

/-- A value that has to be a side of an equation. -/
def Value.expectSide (side : Side) : Value → Except Fault Term
  | .term t => .ok t
  | x => .error (.sideNotTerm side x.kind)

/-- The equation of two sides. -/
def Equation.ofValues (lhs rhs : Value) : Except Fault Equation := do
  let lhs ← lhs.expectSide .left
  let rhs ← rhs.expectSide .right
  return ⟨lhs, rhs⟩

/-! ### Substitutions -/

namespace Substitution

/-- Binds what has to be a variable to what has to be a term. -/
def addValue (s : Substitution) (v t : Value) : Except Fault Substitution := do
  let v ← v.expectVar
  let t ← t.expectTerm
  s.add v t

/-- Adds the entries of a map, in order. -/
def addEntries (s : Substitution) : List (Value × Value) → Except Fault Substitution
  | [] => .ok s
  | (v, t) :: rest => do
    let s ← s.addValue v t
    s.addEntries rest

/-- Adds values that have to be pairs, in order. -/
def addPairs (s : Substitution) : List Value → Except Fault Substitution
  | [] => .ok s
  | x :: rest => do
    let (v, t) ← x.expectPair
    let s ← s.addValue v t
    s.addPairs rest

/-- The substitution whose bindings are the entries of a map or the items of a collection. -/
def ofValue (store : Store) : Value → Except Fault Substitution
  | .map es => empty.addEntries es
  | x => do
    let pairs ← x.items store
    empty.addPairs pairs

/-- The substitution of pairs, or of a single map, and of the entries of a further map.  A further
value that counts as false adds nothing. -/
def ofPairsAnd (store : Store) (pairs : List Value) (more : Value) : Except Fault Substitution := do
  let s ←
    match pairs with
    | [.map es] => empty.addEntries es
    | _ => empty.addPairs pairs
  if more.truth store then
    let es ← more.mapEntries
    s.addEntries es
  else return s

end Substitution

/-! ### Signatures -/

namespace Signature

/-- The symbol that a map declares under a key.  The key has to be the name of the symbol. -/
def symbolOfEntry (store : Store) (entry : Value × Value) : Except Fault Symbol :=
  match entry with
  | (key, .symbol f) =>
    if key.same store (.text f.name) then .ok f
    else .error (.keyMismatch (key.display store) f.name)
  | (key, x) => .error (.entryNotSymbol (key.display store) x.kind)

/-- The symbols that a map declares, in order. -/
def symbolsOfEntries (store : Store) : List (Value × Value) → Except Fault (List Symbol)
  | [] => .ok []
  | e :: es => do
    let f ← symbolOfEntry store e
    let fs ← symbolsOfEntries store es
    return f :: fs

/-- The constants given by a collection, each once. -/
def constantsOfValue (store : Store) (constants : Value) : Except Fault (List Value) := do
  let items ← constants.items store
  match Value.unhashableItem? items with
  | some kind => .error (.unhashable kind)
  | none => return items.eraseDups

/-- The signature declared by a map from names to symbols, and by constants. -/
def ofEntries (store : Store) (entries constants : Value) : Except Fault (Signature Value) := do
  let constants ← constantsOfValue store constants
  let entries ← entries.mapEntries
  let symbols ← symbolsOfEntries store entries
  return ⟨symbols, constants⟩

/-- Values listed under their names.  Of values with one name the last counts, in the place of the
first. -/
def entriesByName : List (String × Value) → List Value → Except Fault (List (String × Value))
  | es, [] => .ok es
  | es, x :: xs => do
    let name ← x.expectName
    entriesByName (Entries.set (· == ·) name x es) xs

/-- The signature declared by a list of symbols, each under its own name, and by constants.  Only
the last value of a name has to be a symbol. -/
def ofValues (store : Store) (symbols constants : Value) : Except Fault (Signature Value) := do
  let items ← symbols.items store
  let entries ← entriesByName [] items
  ofEntries store (.map (entries.map fun e => (.text e.1, e.2))) constants

end Signature

end TermAlgebra
