import TermAlgebra.Operation.Outcome

/-!
# Operations on substitutions

Only `add` and `remove` change a substitution, and only the one that they are called on.  Every
substitution that an operation makes is built anew, binding by binding and term by term, and shares
nothing with those that it came from.

Copying and composing come in two forms, which differ in what they refuse: a function expects its
arguments to be substitutions, while a method is asked for in its first argument, and what is no
substitution lacks it.
-/

namespace TermAlgebra

/-- Operations that build, change or read substitutions. -/
inductive SubstitutionOperation where
  | empty
  | ofPairs
  | ofPairsAnd
  | copy
  | copyMethod
  | compose
  | composeMethod
  | composeKeeping
  | add
  | remove
  | contains
  | member
  | lookup
  | apply
  | applyEquation
  | equivalent
  | bindings
  | domain
  | rangeVariables
  | isIdempotent
  | withoutTrivial
  | render
deriving DecidableEq

namespace SubstitutionOperation

/-- Writes the bindings of a collection of pairs of terms. -/
def writePairs (store : Store) : List Value → Except Fault (List String)
  | [] => .ok []
  | x :: xs => do
    let (v, t) ← x.pair store
    let v ← v.writtenTerm store
    let t ← t.writtenTerm store
    let rest ← writePairs store xs
    return (v.render ++ " -> " ++ t.render) :: rest

/-- Writes a substitution, or any collection of pairs of terms in the same form. -/
def write (store : Store) : Value → Except Fault String
  | .substitution id => .ok (store.substitution id).render
  | x => do
    let xs ← x.items store
    let pairs ← writePairs store xs
    return bracedLiteral pairs

/-- Composes two substitutions in the given way and builds the result anew. -/
def composition (store : Store)
    (compose : Substitution → Substitution → Except Fault (Substitution × List Substitution.Trace))
    (x y : Value) : Except Fault Outcome := do
  let s₁ ← x.expectSubstitution store
  let s₂ ← y.expectSubstitution store
  let (s, trace) ← compose s₁ s₂
  let s ← s.rebuild
  return .composed s trace

/-- Builds a substitution anew. -/
def copied (s : Substitution) : Except Fault Outcome := do
  let s ← s.rebuild
  return .substitution s

/-- Carries an operation out. -/
def run (store : Store) (op : SubstitutionOperation) (args : List Value) : Except Fault Outcome :=
  match op with
  | empty => return .substitution ∅
  | ofPairs => do
    let x ← oneArg args
    let s ← Substitution.ofValue store x
    return .substitution s
  | ofPairsAnd => do
    let (pairs, more) ← oneOrTwoArgs .null args
    let xs ← pairs.items store
    let s ← Substitution.ofPairsAnd store xs more
    return .substitution s
  | copy => do
    let x ← oneArg args
    let s ← x.expectSubstitution store
    copied s
  | copyMethod => do
    let x ← oneArg args
    let id ← x.substitutionId "copy"
    copied (store.substitution id)
  | compose => do
    let (x, y) ← twoArgs args
    composition store Substitution.composeTraced x y
  | composeMethod => do
    let (x, y) ← twoArgs args
    let _ ← x.substitutionId "compose"
    composition store Substitution.composeTraced x y
  | composeKeeping => do
    let (x, y) ← twoArgs args
    composition store Substitution.composeKeeping x y
  | add => do
    let (x, v, t) ← threeArgs args
    let id ← x.substitutionId "add"
    let s ← (store.substitution id).addValue v t
    return ⟨.setSubstitution id s, []⟩
  | remove => do
    let (x, v) ← twoArgs args
    let id ← x.substitutionId "remove"
    let v ← v.expectVar
    return ⟨.setSubstitution id ((store.substitution id).remove v), []⟩
  | contains => do
    let (x, v) ← twoArgs args
    let id ← x.substitutionId "contains"
    let v ← v.expectVar
    return .bool ((store.substitution id).contains v)
  | member => do
    let (v, x) ← twoArgs args
    let s ← x.expectSubstitution store
    let v ← v.expectVar
    return .bool (s.contains v)
  | lookup => do
    let (x, v) ← twoArgs args
    let id ← x.substitutionId "lookup"
    let v ← v.expectVar
    return .value ((((store.substitution id).lookup v).map Value.term).getD .null)
  | apply => do
    let (x, t) ← twoArgs args
    let id ← x.substitutionId "apply"
    let t ← t.expectTerm
    let t ← ((store.substitution id).apply t).rebuild
    return .term t
  | applyEquation => do
    let (x, e) ← twoArgs args
    let id ← x.substitutionId "apply_equation"
    let e ← e.expectEquation
    let e ← ((store.substitution id).applyEquation e).rebuild
    return .value (.equation e)
  | equivalent => do
    let (x, y) ← twoArgs args
    let id ← x.substitutionId "equivalent"
    let s ← y.expectSubstitution store
    return .bool ((store.substitution id).equivalent s)
  | bindings => do
    let x ← oneArg args
    let id ← x.substitutionId "bindings"
    return .value (.tuple ((store.substitution id).bindings.map Value.ofBinding))
  | domain => do
    let x ← oneArg args
    let id ← x.substitutionId "domain"
    return .value (.ofVars (store.substitution id).domain)
  | rangeVariables => do
    let x ← oneArg args
    let id ← x.substitutionId "range_variables"
    return .value (.ofVars (store.substitution id).rangeVariables)
  | isIdempotent => do
    let x ← oneArg args
    let id ← x.substitutionId "is_idempotent"
    return .bool (store.substitution id).isIdempotent
  | withoutTrivial => do
    let x ← oneArg args
    let id ← x.substitutionId "without_trivial"
    copied (store.substitution id).withoutTrivial
  | render => do
    let x ← oneArg args
    let s ← write store x
    return .text s

end SubstitutionOperation

end TermAlgebra
