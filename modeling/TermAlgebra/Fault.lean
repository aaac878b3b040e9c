import TermAlgebra.Term.Basic

/-!
# Kinds and faults

What a refused value is called, and every way in which a request can be refused.
-/

namespace TermAlgebra

/-!
## Kinds of values

Callers hand over values of any kind.  A refused value is reported by the name of its kind.  The
names of the kinds that are known here are fixed; every class from elsewhere is a kind of its own.
-/

/-- What sort of thing a value is. -/
inductive Kind where
  | null
  | bool
  | int
  | float
  | text
  | bytes
  | list
  | tuple
  | map
  | nameSet
  | symbol
  | var
  | const
  | app
  | equation
  | substitution
  | signature
  | report
  | context
  | foreign (className : String)
deriving DecidableEq, Inhabited

/-- The name by which messages refer to a kind. -/
def Kind.label : Kind → String
  | .null => "NoneType"
  | .bool => "bool"
  | .int => "int"
  | .float => "float"
  | .text => "str"
  | .bytes => "bytes"
  | .list => "list"
  | .tuple => "tuple"
  | .map => "dict"
  | .nameSet => "frozenset"
  | .symbol => "Symbol"
  | .var => "Var"
  | .const => "Const"
  | .app => "FnApp"
  | .equation => "Equation"
  | .substitution => "Substitution"
  | .signature => "Signature"
  | .report => "CheckResult"
  | .context => "CheckContext"
  | .foreign className => className

/-!
## Faults

Every way in which a request can be refused, each with what its message tells.  Faults fall into
classes, and the classes of this library form a small hierarchy: a malformed argument is also a
fault of type, a variable bound twice also a fault of value, and a broken invariant also a failed
assertion.
-/

/-! ### Classes of faults -/

/-- The classes that faults fall into. -/
inductive FaultClass where
  | term
  | invalidArgument
  | duplicateBinding
  | invariantViolation
  | type
  | value
  | assertion
  | field
  | unboundRegister
deriving DecidableEq, Inhabited

namespace FaultClass

/-- The name of a class. -/
def label : FaultClass → String
  | .term => "TermError"
  | .invalidArgument => "InvalidArgument"
  | .duplicateBinding => "DuplicateBinding"
  | .invariantViolation => "InternalInvariantViolation"
  | .type => "TypeError"
  | .value => "ValueError"
  | .assertion => "AssertionError"
  | .field => "AttributeError"
  | .unboundRegister => "UnboundRef"

/-- The classes directly above a class. -/
def parents : FaultClass → List FaultClass
  | .invalidArgument => [.term, .type]
  | .duplicateBinding => [.term, .value]
  | .invariantViolation => [.term, .assertion]
  | _ => []

/-- Whether every fault of class `c` is also one of class `d`.  No class has a grandparent. -/
def isA (c d : FaultClass) : Bool := c == d || c.parents.contains d

/-- The classes that a fault is sorted into when it is described, in the order of description. -/
def described : List FaultClass :=
  [.term, .invalidArgument, .duplicateBinding, .invariantViolation, .type, .value, .assertion]

end FaultClass

/-! ### Causes -/

/-- Whose name is meant. -/
inductive NameRole where
  | symbol
  | variable
  | constant
deriving DecidableEq

/-- Which side of an equation is meant. -/
inductive Side where
  | left
  | right
deriving DecidableEq

/-- What an argument had to be. -/
inductive Wanted where
  | symbol
  | variable
  | term
  | substitution
  | equation
  | binding
deriving DecidableEq

/-- Why a request was refused.  `got` is the kind of the offending value, `shown` its literal. -/
inductive Fault where
  | nameNotText (role : NameRole) (got : Kind)
  | arityNotNatural (shown : String)
  | headNotSymbol (got : Kind)
  | argsNotSequence (got : Kind)
  | argNotTerm (index : Nat) (symbol : String) (got : Kind)
  | argCount (symbol : String) (expected got : Nat)
  | sideNotTerm (side : Side) (got : Kind)
  | unexpected (wanted : Wanted) (got : Kind)
  | alreadyBound (v : Var)
  | boundTwice (v : Var)
  | entryNotSymbol (key : String) (got : Kind)
  | keyMismatch (key name : String)
  | notIterable (got : Kind)
  | notUnpackable (got : Kind)
  | tooManyParts (expected : Nat)
  | tooFewParts (expected got : Nat)
  | unhashable (got : Kind)
  | unordered (left right : Kind)
  | withoutLength (got : Kind)
  | missingField (got : Kind) (field : String)
  | unreachable (shown : String)
  | unknownSeverity (shown : String)
  | unboundRegister (register : String)
  | wrongArgCount
deriving DecidableEq

/-- How the role of a name is worded. -/
def NameRole.label : NameRole → String
  | .symbol => "Symbol"
  | .variable => "Variable"
  | .constant => "Constant"

/-- How a side of an equation is worded. -/
def Side.label : Side → String
  | .left => "left"
  | .right => "right"

/-- How the wanted thing is worded. -/
def Wanted.label : Wanted → String
  | .symbol => "a Symbol"
  | .variable => "a Var"
  | .term => "a Term"
  | .substitution => "a Substitution"
  | .equation => "an Equation"
  | .binding => "a (Var, Term) pair"

namespace Fault

/-- The class of a fault. -/
def faultClass : Fault → FaultClass
  | .nameNotText .. | .arityNotNatural .. | .headNotSymbol .. | .argsNotSequence ..
  | .argNotTerm .. | .argCount .. | .sideNotTerm .. | .unexpected .. | .entryNotSymbol ..
  | .keyMismatch .. => .invalidArgument
  | .alreadyBound .. => .duplicateBinding
  | .boundTwice .. => .invariantViolation
  | .notIterable .. | .notUnpackable .. | .unhashable .. | .unordered .. | .withoutLength ..
  | .wrongArgCount => .type
  | .tooManyParts .. | .tooFewParts .. | .unknownSeverity .. => .value
  | .missingField .. => .field
  | .unreachable .. => .assertion
  | .unboundRegister .. => .unboundRegister

/-- The longest literal that a message about an unreachable case shows in full. -/
def shownLimit : Nat := 100

/-- A literal cut to `shownLimit` characters, with an ellipsis if anything was lost. -/
def clip (shown : String) : String :=
  if shown.length ≤ shownLimit then shown
  else String.ofList (shown.toList.take shownLimit) ++ "..."

/-- The text of a fault. -/
def message : Fault → String
  | .nameNotText role got => role.label ++ " name must be a str, got " ++ got.label
  | .arityNotNatural shown => "Symbol arity must be a non-negative int, got " ++ shown
  | .headNotSymbol got => "FnApp symbol must be a Symbol, got " ++ got.label
  | .argsNotSequence got => "FnApp args must be a sequence of terms, got " ++ got.label
  | .argNotTerm index symbol got =>
    "Argument " ++ toString index ++ " to '" ++ symbol ++ "' must be a Term, got " ++ got.label
  | .argCount symbol expected got =>
    "Function '" ++ symbol ++ "' expects " ++ toString expected ++ " arguments, got " ++
      toString got
  | .sideNotTerm side got => "Equation " ++ side.label ++ " side must be a Term, got " ++ got.label
  | .unexpected wanted got => "Expected " ++ wanted.label ++ ", got " ++ got.label
  | .alreadyBound v => "Variable '" ++ v.name ++ "' is already bound in substitution"
  | .boundTwice v => "compose produced a second binding for '" ++ v.name ++ "'"
  | .entryNotSymbol key got =>
    "Signature entry '" ++ key ++ "' must be a Symbol, got " ++ got.label
  | .keyMismatch key name =>
    "Signature key '" ++ key ++ "' does not match symbol name '" ++ name ++ "'"
  | .notIterable got => "'" ++ got.label ++ "' object is not iterable"
  | .notUnpackable got => "cannot unpack non-iterable " ++ got.label ++ " object"
  | .tooManyParts expected => "too many values to unpack (expected " ++ toString expected ++ ")"
  | .tooFewParts expected got =>
    "not enough values to unpack (expected " ++ toString expected ++ ", got " ++ toString got ++ ")"
  | .unhashable got => "unhashable type: '" ++ got.label ++ "'"
  | .unordered left right =>
    "'<' not supported between instances of '" ++ left.label ++ "' and '" ++ right.label ++ "'"
  | .withoutLength got => "object of type '" ++ got.label ++ "' has no len()"
  | .missingField got field =>
    "'" ++ got.label ++ "' object has no attribute '" ++ field ++ "'"
  | .unreachable shown => "Expected code to be unreachable, but got: " ++ clip shown
  | .unknownSeverity shown => shown ++ " is not a valid Severity"
  | .unboundRegister register => register
  | .wrongArgCount => "wrong number of arguments"

end Fault

end TermAlgebra
