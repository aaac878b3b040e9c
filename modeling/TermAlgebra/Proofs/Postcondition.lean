import TermAlgebra.Fault

/-!
# Postconditions of computations that may fail

`Ensures x P` says that whatever `x` returns satisfies `P`; of a failure it says nothing.
`FailsWith x P` says that whatever `x` fails with satisfies `P`, and says nothing of what is
returned.  The rules follow the computation: a result, a failure, one step after another.
-/

namespace TermAlgebra

variable {α β : Type}

/-- Every value that `x` returns satisfies `P`. -/
def Ensures (x : Except Fault α) (P : α → Prop) : Prop := ∀ a, x = .ok a → P a

namespace Ensures

variable {x : Except Fault α} {P Q : α → Prop}

theorem ok {a : α} (h : P a) : Ensures (.ok a) P := by
  intro b hb
  cases hb
  exact h

theorem pure {a : α} (h : P a) : Ensures (pure a) P := ok h

theorem error (fault : Fault) : Ensures (.error fault) P := by
  intro b hb
  cases hb

theorem trivial (x : Except Fault α) : Ensures x fun _ => True := fun _ _ => True.intro

theorem mono (h : Ensures x P) (hPQ : ∀ a, P a → Q a) : Ensures x Q := fun a ha => hPQ a (h a ha)

theorem bind {f : α → Except Fault β} {R : β → Prop} (hx : Ensures x P)
    (hf : ∀ a, P a → Ensures (f a) R) : Ensures (x >>= f) R := by
  intro b hb
  cases x with
  | error fault => cases hb
  | ok a => exact hf a (hx a rfl) b hb

/-- Where nothing has to be known of a result on the way. -/
theorem bind_any {f : α → Except Fault β} {R : β → Prop} (hf : ∀ a, Ensures (f a) R) :
    Ensures (x >>= f) R :=
  (trivial x).bind fun a _ => hf a

end Ensures

/-- Every fault with which `x` fails satisfies `P`. -/
def FailsWith (x : Except Fault α) (P : Fault → Prop) : Prop := ∀ fault, x = .error fault → P fault

namespace FailsWith

variable {x : Except Fault α} {P : Fault → Prop}

theorem ok (a : α) : FailsWith (.ok a) P := by
  intro fault h
  cases h

theorem pure (a : α) : FailsWith (pure a) P := ok a

theorem error {fault : Fault} (h : P fault) : FailsWith (.error fault : Except Fault α) P := by
  intro fault' h'
  cases h'
  exact h

theorem bind {f : α → Except Fault β} (hx : FailsWith x P)
    (hf : ∀ a, x = .ok a → FailsWith (f a) P) : FailsWith (x >>= f) P := by
  intro fault h
  cases x with
  | error fault' =>
    cases h
    exact hx fault rfl
  | ok a => exact hf a rfl fault h

end FailsWith

end TermAlgebra
