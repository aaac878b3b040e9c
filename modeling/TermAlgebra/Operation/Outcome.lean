import TermAlgebra.Value.Build

/-!
# Outcomes of operations

An operation looks at its arguments and at the store and answers with an action: a value to hand
back, an object to make, or a change to one object.  Operations change nothing themselves; an action
takes effect when it is committed.  Beside the action an operation may leave notes.
-/

namespace TermAlgebra

/-- What an operation tells beside its answer. -/
inductive Note where
  | composition (trace : Substitution.Trace)
  | report (r : Report String)
deriving DecidableEq

/-- The part of the library that a note comes from. -/
inductive Channel where
  | substitution
  | check
deriving DecidableEq

/-- How much attention a note asks for. -/
inductive Level where
  | debug
  | warning
deriving DecidableEq

/-- Where a note comes from. -/
def Note.channel : Note → Channel
  | .composition _ => .substitution
  | .report _ => .check

/-- How much attention a note asks for: how a composition went is of interest only to those who look
for it, a report with errors to everybody. -/
def Note.level : Note → Level
  | .composition _ => .debug
  | .report _ => .warning

/-- The text of a note. -/
def Note.message : Note → String
  | .composition trace => trace.message
  | .report r => r.summary

/-- What an operation asks for. -/
inductive Action where
  | yield (x : Value)
  | makeSubstitution (s : Substitution)
  | makeContext (ctx : Context Value Value)
  | setSubstitution (id : Nat) (s : Substitution)
  | setContext (id : Nat) (ctx : Context Value Value)

/-- Carries an action out: the value handed back, and the store afterwards. -/
def Action.commit (store : Store) : Action → Value × Store
  | .yield x => (x, store)
  | .makeSubstitution s => let (id, store) := store.newSubstitution s; (.substitution id, store)
  | .makeContext ctx => let (id, store) := store.newContext ctx; (.context id, store)
  | .setSubstitution id s => (.null, store.setSubstitution id s)
  | .setContext id ctx => (.null, store.setContext id ctx)

/-- An action and the notes beside it. -/
structure Outcome where
  action : Action
  notes : List Note

namespace Outcome

/-- Hands a value back. -/
def value (x : Value) : Outcome := ⟨.yield x, []⟩

/-- Hands a term back. -/
def term (t : Term) : Outcome := value (.term t)

/-- Hands a truth value back. -/
def bool (b : Bool) : Outcome := value (.bool b)

/-- Hands a text back. -/
def text (s : String) : Outcome := value (.text s)

/-- Makes a substitution. -/
def substitution (s : Substitution) : Outcome := ⟨.makeSubstitution s, []⟩

/-- Makes a substitution and tells how it was composed. -/
def composed (s : Substitution) (trace : List Substitution.Trace) : Outcome :=
  ⟨.makeSubstitution s, trace.map .composition⟩

/-- Hands a report back.  A report with errors is noted. -/
def report (r : Report String) : Outcome :=
  ⟨.yield (.ofReport r), if r.isWellFormed then [] else [.report r]⟩

end Outcome

/-! ## Arguments -/

/-- The only argument. -/
def oneArg : List Value → Except Fault Value
  | [x] => .ok x
  | _ => .error .wrongArgCount

/-- Both arguments. -/
def twoArgs : List Value → Except Fault (Value × Value)
  | [x, y] => .ok (x, y)
  | _ => .error .wrongArgCount

/-- All three arguments. -/
def threeArgs : List Value → Except Fault (Value × Value × Value)
  | [x, y, z] => .ok (x, y, z)
  | _ => .error .wrongArgCount

/-- An argument and another that may be left out. -/
def oneOrTwoArgs (default : Value) : List Value → Except Fault (Value × Value)
  | [x] => .ok (x, default)
  | [x, y] => .ok (x, y)
  | _ => .error .wrongArgCount

/-- An argument and those that follow it. -/
def argAndMore : List Value → Except Fault (Value × List Value)
  | x :: xs => .ok (x, xs)
  | [] => .error .wrongArgCount

end TermAlgebra
