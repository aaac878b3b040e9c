import TermAlgebra.Value.Equality

/-!
# Showing values and going through them

How a value is shown, and what it consists of when it is gone through item by item.
-/

namespace TermAlgebra

/-!
## Literals

The literal of a value shows what the value is made of, part by part; its display is the text meant
for reading, which for terms, equations and substitutions is their written form.  A context that
comes back inside its own literal is shown as an ellipsis there.
-/

section

open Text

/-- Items in the form of a tuple: a single item is followed by a comma. -/
def tupleLiteral : List String → String
  | [item] => "(" ++ item ++ ",)"
  | items => bracketed "(" ")" items

/-- Items in the form of a map or a set. -/
def bracedLiteral (items : List String) : String := bracketed "\x7b" "\x7d" items

/-- The literal of an entry. -/
def entryLiteral (key value : String) : String := key ++ ": " ++ value

/-- Names in the order of their code points. -/
def sortedNames (names : List String) : List String := names.mergeSort fun a b => a ≤ b

/-- The literal of a fixed set. -/
def fixedSetLiteral : List String → String
  | [] => "frozenset()"
  | members => "frozenset(" ++ bracedLiteral members ++ ")"

/-- The literal of a set that can grow. -/
def openSetLiteral : List String → String
  | [] => "set()"
  | members => bracedLiteral members

/-- The literal of a symbol. -/
def Symbol.literal (f : Symbol) : String :=
  "Symbol(name=" ++ quote f.name ++ ", arity=" ++ toString f.arity ++ ")"

mutual

/-- The literal of a term. -/
def Term.literal : Term → String
  | .var v => "Var(name=" ++ quote v.name ++ ")"
  | .const c => "Const(name=" ++ quote c ++ ")"
  | .app f as =>
    "FnApp(symbol=" ++ f.literal ++ ", args=" ++ tupleLiteral (Term.literalArgs as) ++ ")"

/-- The literals of the arguments. -/
def Term.literalArgs : List Term → List String
  | [] => []
  | a :: as => a.literal :: Term.literalArgs as

end

/-- The literal of an equation. -/
def Equation.literal (e : Equation) : String :=
  "Equation(lhs=" ++ e.lhs.literal ++ ", rhs=" ++ e.rhs.literal ++ ")"

/-- The literal of a substitution holds its written form. -/
def Substitution.literal (s : Substitution) : String := "Substitution(" ++ s.render ++ ")"

/-- The literal of a signature, given those of its constants. -/
def signatureLiteral (symbols : List Symbol) (constants : List String) : String :=
  "Signature(symbols=" ++
    bracedLiteral (symbols.map fun f => entryLiteral (quote f.name) f.literal) ++
    ", constants=" ++ fixedSetLiteral constants ++ ")"

/-- The literal of a severity. -/
def Severity.literal : Severity → String
  | .error => "<Severity.ERROR: 'error'>"
  | .warning => "<Severity.WARNING: 'warning'>"

/-- The literal of a diagnostic, given those of its parts. -/
def diagnosticLiteral (check : String) (severity : Severity) (message path : String) : String :=
  "Diagnostic(check=" ++ check ++ ", severity=" ++ severity.literal ++ ", message=" ++ message ++
    ", path=" ++ path ++ ")"

/-- The literal of a report, given those of its parts. -/
def reportLiteral (subject : String) (diagnostics : List String) : String :=
  "CheckResult(subject=" ++ subject ++ ", diagnostics=" ++ tupleLiteral diagnostics ++ ")"

namespace Value

/-- The literal of what is missing. -/
def nullLiteral : String := "None"

/-- The literals of the members of a set, brought into the order of the members as far as they have
one. -/
def membersInOrder (members : List Value) (literals : List String) : List String :=
  let before (a b : Value × String) : Bool := !((b.1.less a.1).toOption.getD false)
  ((members.zip literals).mergeSort before).map Prod.snd

mutual

/-- The literal of a value, where `ofContext` tells those of contexts. -/
def literalWith (ofContext : Nat → String) (store : Store) : Value → String
  | null => nullLiteral
  | bool b => if b then "True" else "False"
  | int i => toString i
  | float l => l
  | notNumber _ => Decimal.notNumber
  | text s => quote s
  | bytes bs => quoteBytes bs
  | list xs => bracketed "[" "]" (literals ofContext store xs)
  | tuple xs => tupleLiteral (literals ofContext store xs)
  | map es => bracedLiteral (entryLiterals ofContext store es)
  | nameSet names => fixedSetLiteral ((sortedNames names).map quote)
  | symbol f => f.literal
  | term t => t.literal
  | equation e => e.literal
  | signature ⟨fs, cs⟩ => signatureLiteral fs (membersInOrder cs (literals ofContext store cs))
  | report ⟨s, ds⟩ =>
    reportLiteral (literalWith ofContext store s) (diagnosticLiterals ofContext store ds)
  | substitution id => (store.substitution id).literal
  | context id => ofContext id

/-- The literals of several values. -/
def literals (ofContext : Nat → String) (store : Store) : List Value → List String
  | [] => []
  | x :: xs => literalWith ofContext store x :: literals ofContext store xs

/-- The literals of several entries. -/
def entryLiterals (ofContext : Nat → String) (store : Store) :
    List (Value × Value) → List String
  | [] => []
  | (k, x) :: es =>
    entryLiteral (literalWith ofContext store k) (literalWith ofContext store x) ::
      entryLiterals ofContext store es

/-- The literals of several diagnostics. -/
def diagnosticLiterals (ofContext : Nat → String) (store : Store) :
    List (Diagnostic Value) → List String
  | [] => []
  | ⟨c, s, m, none⟩ :: ds =>
    diagnosticLiteral (literalWith ofContext store c) s (literalWith ofContext store m)
      nullLiteral :: diagnosticLiterals ofContext store ds
  | ⟨c, s, m, some p⟩ :: ds =>
    diagnosticLiteral (literalWith ofContext store c) s (literalWith ofContext store m)
      (literalWith ofContext store p) :: diagnosticLiterals ofContext store ds

end

/-- The literal of a context inside the literals of the contexts `shown`.  None is shown inside
itself, so `fuel` lasts if it is the number of contexts. -/
def contextLiteral (store : Store) : Nat → List Nat → Nat → String
  | 0, _, _ => "..."
  | fuel + 1, shown, id =>
    let ofContext := contextLiteral store fuel (id :: shown)
    let ctx := store.context id
    let members xs := openSetLiteral (membersInOrder xs (literals ofContext store xs))
    if shown.contains id then "..."
    else
      "CheckContext(sig=" ++ literalWith ofContext store ctx.sig ++ ", diagnostics=" ++
        bracketed "[" "]" (diagnosticLiterals ofContext store ctx.diagnostics) ++
        ", _const_names=" ++ members ctx.constants ++ ", _nullary_names=" ++
        members ctx.nullary ++ ")"

/-- The literal of a value. -/
def literal (store : Store) (x : Value) : String :=
  literalWith (contextLiteral store store.contexts.length []) store x

/-- The display of a value. -/
def display (store : Store) : Value → String
  | text s => s
  | symbol f => f.name
  | term t => t.render
  | equation e => e.render
  | substitution id => (store.substitution id).render
  | x => x.literal store

end Value

end

/-!
## Values as collections

The items that a value consists of when it is gone through one by one, its length and whether it
counts as empty.  A map is gone through by its keys, a substitution by its bindings, a text by its
characters and a byte string by its bytes.
-/

namespace Value

/-- The items of a value, if it is a collection. -/
def items? (store : Store) : Value → Option (List Value)
  | text s => some (s.toList.map fun c => text (String.singleton c))
  | bytes bs => some (bs.map fun b => int b.toNat)
  | list xs => some xs
  | tuple xs => some xs
  | map es => some (es.map Prod.fst)
  | nameSet names => some ((sortedNames names).map text)
  | substitution id => some ((store.substitution id).bindings.map ofBinding)
  | _ => none

/-- The items of a value that has to be a collection. -/
def items (store : Store) (x : Value) : Except Fault (List Value) :=
  match x.items? store with
  | some xs => .ok xs
  | none => .error (.notIterable x.kind)

/-- The two items of a value that has to be a collection of two. -/
def pair (store : Store) (x : Value) : Except Fault (Value × Value) :=
  match x.items? store with
  | some [y, z] => .ok (y, z)
  | some (_ :: _ :: _ :: _) => .error (.tooManyParts 2)
  | some xs => .error (.tooFewParts 2 xs.length)
  | none => .error (.notUnpackable x.kind)

/-- The four items of a value that has to be a collection of four. -/
def four (store : Store) (x : Value) : Except Fault (Value × Value × Value × Value) :=
  match x.items? store with
  | some [y, z, u, v] => .ok (y, z, u, v)
  | some (_ :: _ :: _ :: _ :: _ :: _) => .error (.tooManyParts 4)
  | some xs => .error (.tooFewParts 4 xs.length)
  | none => .error (.notUnpackable x.kind)

/-- The number of items of a collection. -/
def length (store : Store) (x : Value) : Except Fault Nat :=
  match x.items? store with
  | some xs => .ok xs.length
  | none => .error (.withoutLength x.kind)

/-- Zero and empty collections count as false, everything else as true. -/
def truth (store : Store) (x : Value) : Bool :=
  match x, x.number?, x.items? store with
  | null, _, _ => false
  | _, some a, _ => !a.isZero
  | _, none, some xs => !xs.isEmpty
  | _, none, none => true

end Value

end TermAlgebra
