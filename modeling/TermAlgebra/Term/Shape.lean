import TermAlgebra.Fault
import TermAlgebra.Term.Render

/-!
# Well-shaped terms and equations

Terms in which every symbol has as many arguments as it takes, and equations between terms.
-/

namespace TermAlgebra

/-!
## Well-shaped terms

A term is well shaped when every symbol in it stands before as many arguments as it takes.
`Symbol.apply` builds an application only if the count is right, and `Term.rebuild` builds a term
anew from its leaves through `Symbol.apply`.  Rebuilding succeeds exactly on the well-shaped terms,
and it gives the term back (`rebuild_eq_ok_iff`).
-/

/-- Applies a symbol to as many arguments as it takes, and to no other number. -/
def Symbol.apply (f : Symbol) (args : List Term) : Except Fault Term :=
  if args.length = f.arity then .ok (.app f args)
  else .error (.argCount f.name f.arity args.length)

theorem Symbol.apply_eq_ok_iff {f : Symbol} {args : List Term} {t : Term} :
    f.apply args = .ok t ↔ args.length = f.arity ∧ t = .app f args := by
  unfold Symbol.apply
  split <;> simp_all [eq_comm]

namespace Term

mutual

/-- Every symbol in the term has the number of arguments that it takes. -/
def WellShaped : Term → Prop
  | .var _ => True
  | .const _ => True
  | .app f as => as.length = f.arity ∧ ArgsWellShaped as

/-- Every argument is well shaped. -/
def ArgsWellShaped : List Term → Prop
  | [] => True
  | a :: as => WellShaped a ∧ ArgsWellShaped as

end

theorem argsWellShaped_iff (as : List Term) : ArgsWellShaped as ↔ ∀ a ∈ as, WellShaped a := by
  induction as with
  | nil => simp [ArgsWellShaped]
  | cons a as ih => simp [ArgsWellShaped, ih]

@[simp] theorem wellShaped_var (v : Var) : WellShaped (.var v) := by simp [WellShaped]

@[simp] theorem wellShaped_const (c : String) : WellShaped (.const c) := by simp [WellShaped]

@[simp] theorem wellShaped_app (f : Symbol) (as : List Term) :
    WellShaped (.app f as) ↔ as.length = f.arity ∧ ∀ a ∈ as, WellShaped a := by
  simp [WellShaped, argsWellShaped_iff]

mutual

/-- Whether a term is well shaped can be checked. -/
def decideWellShaped : (t : Term) → Decidable (WellShaped t)
  | .var _ => .isTrue trivial
  | .const _ => .isTrue trivial
  | .app f as =>
    @instDecidableAnd (as.length = f.arity) (ArgsWellShaped as) _ (decideArgsWellShaped as)

/-- Whether every argument is well shaped can be checked. -/
def decideArgsWellShaped : (as : List Term) → Decidable (ArgsWellShaped as)
  | [] => .isTrue trivial
  | a :: as =>
    @instDecidableAnd (WellShaped a) (ArgsWellShaped as) (decideWellShaped a)
      (decideArgsWellShaped as)

end

instance : DecidablePred WellShaped := decideWellShaped

mutual

/-- Builds a term anew, arguments before the application that holds them, so that the first node
with a wrong number of arguments is reported. -/
def rebuild : Term → Except Fault Term
  | .var v => .ok (.var v)
  | .const c => .ok (.const c)
  | .app f as => do
    let as ← rebuildArgs as
    f.apply as

/-- Builds the arguments anew, from left to right. -/
def rebuildArgs : List Term → Except Fault (List Term)
  | [] => .ok []
  | a :: as => do
    let a ← rebuild a
    let as ← rebuildArgs as
    .ok (a :: as)

end

theorem rebuildArgs_eq_ok_iff {as bs : List Term}
    (ih : ∀ a ∈ as, ∀ b, rebuild a = .ok b ↔ a.WellShaped ∧ b = a) :
    rebuildArgs as = .ok bs ↔ (∀ a ∈ as, a.WellShaped) ∧ bs = as := by
  induction as generalizing bs with
  | nil => simp [rebuildArgs, eq_comm]
  | cons a as ihas =>
    have hhead := ih a List.mem_cons_self
    have htail : ∀ bs, rebuildArgs as = .ok bs ↔ (∀ x ∈ as, x.WellShaped) ∧ bs = as :=
      fun _ => ihas fun x hx => ih x (List.mem_cons_of_mem a hx)
    simp only [rebuildArgs, bind, Except.bind]
    split
    · next e he =>
      have : ¬ a.WellShaped := fun hw => by simp [(hhead a).2 ⟨hw, rfl⟩] at he
      simp [this]
    · next b hb =>
      obtain ⟨hw, rfl⟩ := (hhead b).1 hb
      split
      · next e he =>
        have : ¬ ∀ x ∈ as, x.WellShaped := fun hws => by simp [(htail as).2 ⟨hws, rfl⟩] at he
        simp only [List.mem_cons, forall_eq_or_imp, reduceCtorEq, false_iff, not_and]
        exact fun h => absurd h.2 this
      · next cs hcs =>
        obtain ⟨hws, rfl⟩ := (htail cs).1 hcs
        simp only [Except.ok.injEq, List.mem_cons, forall_eq_or_imp]
        exact ⟨fun h => ⟨⟨hw, hws⟩, h.symm⟩, fun h => h.2.symm⟩

/-- Rebuilding accepts exactly the well-shaped terms and changes none. -/
theorem rebuild_eq_ok_iff {t u : Term} : rebuild t = .ok u ↔ t.WellShaped ∧ u = t := by
  induction t using inductionOn generalizing u with
  | var v => simp [rebuild, eq_comm]
  | const c => simp [rebuild, eq_comm]
  | app f as ih =>
    have hargs : ∀ bs, rebuildArgs as = .ok bs ↔ (∀ a ∈ as, a.WellShaped) ∧ bs = as :=
      fun _ => rebuildArgs_eq_ok_iff fun a ha _ => ih a ha
    simp only [rebuild, bind, Except.bind]
    split
    · next e he =>
      have : ¬ ∀ a ∈ as, a.WellShaped := fun hws => by simp [(hargs as).2 ⟨hws, rfl⟩] at he
      simp only [wellShaped_app, reduceCtorEq, false_iff, not_and]
      exact fun h => absurd h.2 this
    · next bs hbs =>
      obtain ⟨hws, rfl⟩ := (hargs bs).1 hbs
      simp only [Symbol.apply_eq_ok_iff, wellShaped_app]
      exact ⟨fun h => ⟨⟨h.1, hws⟩, h.2⟩, fun h => ⟨h.1.1, h.2⟩⟩

end Term

/-!
## Equations

Two terms put side by side, to be shown and to be substituted into together.  Nothing here says
that the sides are equal.
-/

/-- An equation between two terms. -/
structure Equation where
  lhs : Term
  rhs : Term
deriving DecidableEq, Inhabited

namespace Equation

/-- The written form `lhs = rhs`. -/
def render (e : Equation) : String := e.lhs.render ++ " = " ++ e.rhs.render

/-- Both sides are well shaped. -/
def WellShaped (e : Equation) : Prop := e.lhs.WellShaped ∧ e.rhs.WellShaped

instance (e : Equation) : Decidable e.WellShaped := inferInstanceAs (Decidable (_ ∧ _))

/-- Builds both sides anew. -/
def rebuild (e : Equation) : Except Fault Equation := do
  let lhs ← e.lhs.rebuild
  let rhs ← e.rhs.rebuild
  .ok ⟨lhs, rhs⟩

end Equation

end TermAlgebra
