import Mathlib.Data.List.Basic

/-!
# Texts taken apart

Where a part of a text ends at the first of certain marks, the text can be taken apart in one way
only (`append_inj_of_stops`).  The numbers written in a text are read off from left to right
(`numbers`), whatever stands between them.
-/

namespace TermAlgebra

namespace Text

/-! ## Parts -/

/-- None of the given characters occurs in a text. -/
def FreeOf (marks : List Char) (s : String) : Prop := ∀ c ∈ s.toList, c ∉ marks

instance (marks : List Char) (s : String) : Decidable (FreeOf marks s) :=
  List.decidableBAll (· ∉ marks) s.toList

/-- A text that is at its end or goes on with one of the given characters. -/
def Stops (marks : List Char) (cs : List Char) : Prop := ∀ c ∈ cs.head?, c ∈ marks

theorem stops_cons {marks cs : List Char} {c : Char} : Stops marks (c :: cs) ↔ c ∈ marks := by
  simp [Stops]

variable {marks part part' rest rest' : List Char}

theorem takeWhile_append_of_stops (hpart : ∀ c ∈ part, c ∉ marks) (hrest : Stops marks rest) :
    (part ++ rest).takeWhile (· ∉ marks) = part := by
  have hall : ∀ c ∈ part, decide (c ∉ marks) = true := fun c hc => decide_eq_true (hpart c hc)
  have hnone : rest.takeWhile (· ∉ marks) = [] := by
    cases rest with
    | nil => rfl
    | cons c rest => simp [stops_cons.1 hrest]
  rw [List.takeWhile_append_of_pos hall, hnone, List.append_nil]

/-- The part before the first mark is determined, and so is what follows it. -/
theorem append_inj_of_stops (hpart : ∀ c ∈ part, c ∉ marks) (hpart' : ∀ c ∈ part', c ∉ marks)
    (hrest : Stops marks rest) (hrest' : Stops marks rest') (h : part ++ rest = part' ++ rest') :
    part = part' ∧ rest = rest' := by
  have hparts : part = part' := by
    calc part = (part ++ rest).takeWhile (· ∉ marks) := (takeWhile_append_of_stops hpart hrest).symm
      _ = (part' ++ rest').takeWhile (· ∉ marks) := by rw [h]
      _ = part' := takeWhile_append_of_stops hpart' hrest'
  rw [hparts] at h
  exact ⟨hparts, List.append_cancel_left h⟩

theorem toList_append_inj {s s' : String} (hs : FreeOf marks s) (hs' : FreeOf marks s')
    (hrest : Stops marks rest) (hrest' : Stops marks rest')
    (h : s.toList ++ rest = s'.toList ++ rest') : s = s' ∧ rest = rest' := by
  obtain ⟨hlists, hrests⟩ := append_inj_of_stops hs hs' hrest hrest' h
  exact ⟨String.toList_inj.1 hlists, hrests⟩

/-! ## Numbers -/

/-- No digit occurs in a text. -/
def FreeOfDigits (cs : List Char) : Prop := ∀ c ∈ cs, c.isDigit = false

instance (cs : List Char) : Decidable (FreeOfDigits cs) :=
  List.decidableBAll (fun c : Char => c.isDigit = false) cs

/-- The numbers in the rest of a text, behind digits that stand for `n?`. -/
def numbersFrom (n? : Option Nat) : List Char → List Nat
  | [] => n?.toList
  | c :: cs =>
    if c.isDigit then numbersFrom (some (10 * n?.getD 0 + (c.toNat - '0'.toNat))) cs
    else n?.toList ++ numbersFrom none cs

/-- The numbers written in a text in decimal digits, from left to right. -/
def numbers (s : String) : List Nat := numbersFrom none s.toList

theorem numbersFrom_skip (hpart : FreeOfDigits part) (rest : List Char) :
    numbersFrom none (part ++ rest) = numbersFrom none rest := by
  induction part with
  | nil => rfl
  | cons c part ih =>
    have hc : c.isDigit = false := hpart c List.mem_cons_self
    have htail := ih fun d hd => hpart d (List.mem_cons_of_mem c hd)
    simp [numbersFrom, hc, htail]

theorem numbersFrom_digits (hpart : ∀ c ∈ part, c.isDigit = true) (n : Nat) (rest : List Char) :
    numbersFrom (some n) (part ++ rest) =
      numbersFrom (some (Nat.ofDigitChars 10 part n)) rest := by
  induction part generalizing n with
  | nil => rfl
  | cons c part ih =>
    have hc : c.isDigit = true := hpart c List.mem_cons_self
    have htail := ih fun d hd => hpart d (List.mem_cons_of_mem c hd)
    rw [List.cons_append, numbersFrom, if_pos hc, htail, Nat.ofDigitChars_cons]
    rfl

/-- The digits of a number stand for it. -/
theorem numbersFrom_toString (n : Nat) (rest : List Char) :
    numbersFrom none ((toString n).toList ++ rest) = numbersFrom (some n) rest := by
  have hdigits : (toString n).toList = Nat.toDigits 10 n := by
    rw [Nat.toString_eq_repr, Nat.toList_repr]
  have hall : ∀ c ∈ Nat.toDigits 10 n, c.isDigit = true := fun c hc =>
    Nat.isDigit_of_mem_toDigits (by omega) (by omega) hc
  -- Before the first digit it makes no difference whether nothing or a zero was read.
  have hzero : numbersFrom none (Nat.toDigits 10 n ++ rest) =
      numbersFrom (some 0) (Nat.toDigits 10 n ++ rest) := by
    cases hcs : Nat.toDigits 10 n with
    | nil => exact absurd hcs Nat.toDigits_ne_nil
    | cons c cs =>
      have hc : c.isDigit = true := hall c (by simp [hcs])
      simp [numbersFrom, hc]
  rw [hdigits, hzero, numbersFrom_digits hall, Nat.ofDigitChars_toDigits (by omega) (by omega)]

/-- A number ends where other characters follow. -/
theorem numbersFrom_stop {c : Char} (hc : c.isDigit = false) (n : Nat) (rest : List Char) :
    numbersFrom (some n) (c :: rest) = n :: numbersFrom none rest := by
  simp [numbersFrom, hc]

end Text

end TermAlgebra
