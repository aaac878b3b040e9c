import Mathlib.Data.List.Perm.Basic
import Mathlib.Data.List.Sort
import TermAlgebra.Value.Equality

/-!
# Texts among values

As long as a collection of values holds nothing but texts, it is handled as the texts are: members
are told apart by their characters (`beq_text`), and they are put in the order of their code points
(`inOrder_map_text`).
-/

namespace TermAlgebra

namespace Value

theorem text_injective : Function.Injective text := fun _ _ h => text.inj h

/-! ## Members -/

@[simp] theorem beq_text (s s' : String) : (text s == text s') = (s == s') := by
  show alikeWith (· == ·) (text s) (text s') = _
  rw [alikeWith]

theorem contains_map_text (ss : List String) (s : String) :
    (ss.map text).contains (text s) = ss.contains s := by
  induction ss with
  | nil => rfl
  | cons s' ss ih => rw [List.map_cons, List.contains_cons, List.contains_cons, ih, beq_text]

theorem insert_map_text (ss : List String) (s : String) :
    (ss.map text).insert (text s) = (ss.insert s).map text := by
  rw [List.insert, List.insert, contains_map_text]
  split <;> rfl

theorem eraseDups_map_text : ∀ ss : List String, (ss.map text).eraseDups = ss.eraseDups.map text
  | [] => rfl
  | s :: ss => by
    have ih := eraseDups_map_text (ss.filter fun s' => !s' == s)
    have hrest : (ss.map text).filter (fun x => !x == text s) =
        (ss.filter fun s' => !s' == s).map text := by
      rw [List.filter_map]
      exact congrArg (List.map text) (List.filter_congr fun s' _ => congrArg not (beq_text s' s))
    rw [List.map_cons, List.eraseDups_cons, List.eraseDups_cons, hrest, ih, List.map_cons]
termination_by ss => ss.length
decreasing_by exact Nat.lt_succ_of_le (List.length_filter_le _ ss)

theorem unhashable_text (s : String) : (text s).unhashable? = none := by simp [unhashable?]

theorem unhashableItem?_map_text (ss : List String) : unhashableItem? (ss.map text) = none := by
  induction ss with
  | nil => rfl
  | cons s ss ih => rw [List.map_cons, unhashableItem?, ih, unhashable_text, Option.or_none]

/-! ## Order -/

theorem less_text (s s' : String) : (text s).less (text s') = .ok (s < s') := by
  rw [less]

theorem insertInOrder_map_text (s : String) (ss : List String) :
    insertInOrder (text s) (ss.map text) = .ok ((ss.orderedInsert (· < ·) s).map text) := by
  induction ss with
  | nil => rfl
  | cons s' ss ih =>
    rw [List.map_cons, insertInOrder_cons, less_text, List.orderedInsert_cons]
    by_cases h : s < s'
    · simp [h]
    · simp [h, ih, Except.map]

/-- What is put in front of the first text that it comes before is in its place. -/
theorem pairwise_orderedInsert_text {ss : List String} (h : ss.Pairwise (· ≤ ·)) (s : String) :
    (ss.orderedInsert (· < ·) s).Pairwise (· ≤ ·) := by
  induction ss with
  | nil => exact List.pairwise_singleton _ s
  | cons s' ss ih =>
    obtain ⟨hhead, htail⟩ := List.pairwise_cons.1 h
    rw [List.orderedInsert_cons]
    by_cases hlt : s < s'
    · rw [if_pos hlt, List.pairwise_cons]
      refine ⟨fun r hr => ?_, h⟩
      rcases List.mem_cons.1 hr with rfl | hr
      · exact Std.le_of_lt hlt
      · exact String.le_trans (Std.le_of_lt hlt) (hhead r hr)
    · rw [if_neg hlt, List.pairwise_cons]
      refine ⟨fun r hr => ?_, ih htail⟩
      rcases (List.mem_orderedInsert _).1 hr with rfl | hr
      · exact Std.not_lt.1 hlt
      · exact hhead r hr

theorem inOrder_eq_ok_map_text (ss : List String) :
    ∃ sorted : List String, inOrder (ss.map text) = .ok (sorted.map text) ∧
      sorted.Pairwise (· ≤ ·) := by
  have hfold : ∀ sorted : List String, sorted.Pairwise (· ≤ ·) →
      ∃ sorted' : List String, (ss.map text).foldlM (fun sorted x => insertInOrder x sorted)
        (sorted.map text) = .ok (sorted'.map text) ∧ sorted'.Pairwise (· ≤ ·) := by
    induction ss with
    | nil => exact fun sorted h => ⟨sorted, rfl, h⟩
    | cons s ss ih =>
      intro sorted h
      rw [List.map_cons, List.foldlM_cons, insertInOrder_map_text]
      exact ih _ (pairwise_orderedInsert_text h s)
  exact hfold [] List.Pairwise.nil

/-- Texts are put in the order of their code points. -/
theorem inOrder_map_text {ss sorted : List String} (hperm : sorted.Perm ss)
    (hsorted : sorted.Pairwise (· ≤ ·)) : inOrder (ss.map text) = .ok (sorted.map text) := by
  obtain ⟨sorted', hsorted', hpairwise⟩ := inOrder_eq_ok_map_text ss
  have hperm' : sorted'.Perm ss :=
    (List.map_perm_map_iff text_injective).1 (perm_of_inOrder hsorted')
  rw [hsorted', (hperm'.trans hperm.symm).eq_of_pairwise (fun _ _ _ _ => String.le_antisymm)
    hpairwise hsorted]

end Value

end TermAlgebra
