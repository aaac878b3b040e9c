import Mathlib.Data.List.Basic
import Mathlib.Data.List.Induction
import Mathlib.Order.Bounds.Basic

/-!
# Lists up to the first exception and without repetitions

What stands first in a list decides twice: the first item that fails a test is the one reported, and
of equal items the first is the one kept.
-/

namespace TermAlgebra

/-!
## Lists up to the first exception

A list that is gone through until something fails a test is taken apart there: what comes before has
passed the test, and where the list is taken apart is determined by the test (`eq_of_first_other`).
-/

section

variable {α β : Type}

/-- All of a list are of one form, or there is a first that is not. -/
theorem map_or_first_other (f : β → α) (as : List α) :
    (∃ bs : List β, as = bs.map f) ∨
      ∃ (bs : List β) (a : α) (rest : List α), as = bs.map f ++ a :: rest ∧ ∀ b, a ≠ f b := by
  induction as with
  | nil => exact .inl ⟨[], rfl⟩
  | cons a as ih =>
    by_cases ha : ∃ b, a = f b
    · obtain ⟨b, rfl⟩ := ha
      rcases ih with ⟨bs, rfl⟩ | ⟨bs, a', rest, rfl, hother⟩
      · exact .inl ⟨b :: bs, rfl⟩
      · exact .inr ⟨b :: bs, a', rest, rfl, hother⟩
    · exact .inr ⟨[], a, as, rfl, not_exists.1 ha⟩

/-- Two ways to take a list apart at the first that fails a test take it apart at the same. -/
theorem eq_of_first_other {P : α → Prop} {as as' rest rest' : List α} {a a' : α}
    (h : as ++ a :: rest = as' ++ a' :: rest') (has : ∀ b ∈ as, P b) (ha : ¬P a)
    (has' : ∀ b ∈ as', P b) (ha' : ¬P a') : a = a' := by
  classical
  have hfind : ∀ {bs c after}, as ++ a :: rest = bs ++ c :: after → (∀ b ∈ bs, P b) → ¬P c →
      (as ++ a :: rest).find? (fun b => decide (¬P b)) = some c := by
    intro bs c after hsplit hbs hc
    refine List.find?_eq_some_iff_append.2 ⟨decide_eq_true hc, bs, after, hsplit, fun b hb => ?_⟩
    rw [decide_eq_false fun hb' => hb' (hbs b hb), Bool.not_false]
  exact Option.some.inj ((hfind rfl has ha).symm.trans (hfind h has' ha'))

end

/-!
## Repetitions in lists

`eraseDups` keeps the first occurrence of everything in a list, as one does who goes through the
list and notes what is new (`foldl_noteNew`).  So what is left stands in the order of first
occurrence (`pair_sublist_eraseDups_iff`).  Where lists are put together block by block it
does not matter whether repetitions are dropped at once, within the blocks first, or among what the
blocks come from (`eraseDups_flatMap_eraseDups`, `eraseDups_flatMap_congr`): a block that comes up a
second time has nothing new in it.
-/

section

variable {α : Type} [DecidableEq α]

theorem eraseDups_filter (p : α → Bool) : ∀ as : List α,
    (as.filter p).eraseDups = as.eraseDups.filter p
  | [] => rfl
  | a :: as => by
    have ih := eraseDups_filter p (as.filter fun b => !b == a)
    rw [List.eraseDups_cons]
    by_cases ha : p a = true
    · rw [List.filter_cons_of_pos ha, List.filter_cons_of_pos ha, List.eraseDups_cons, ← ih,
        List.filter_filter, List.filter_filter]
      simp only [Bool.and_comm]
    -- What equals `a` fails `p` too, so nothing is lost by dropping it first.
    · rw [List.filter_cons_of_neg ha, List.filter_cons_of_neg ha, ← ih, List.filter_filter]
      refine congrArg List.eraseDups (List.filter_congr fun b _ => ?_)
      by_cases hb : b = a
      · rw [hb, Bool.eq_false_iff.2 ha, Bool.false_and]
      · rw [beq_eq_false_iff_ne.2 hb, Bool.not_false, Bool.and_true]
termination_by as => as.length
decreasing_by exact Nat.lt_succ_of_le (List.length_filter_le _ as)

/-- Of a list that follows another only that is new which does not occur in the first. -/
theorem eraseDups_append_filter (as bs : List α) :
    (as ++ bs).eraseDups = as.eraseDups ++ bs.eraseDups.filter fun b => b ∉ as := by
  rw [List.eraseDups_append, List.removeAll, eraseDups_filter]
  simp

theorem eraseDups_append_of_subset {as bs : List α} (h : bs ⊆ as) :
    (as ++ bs).eraseDups = as.eraseDups := by
  have hnew : (bs.eraseDups.filter fun b => b ∉ as) = [] :=
    List.filter_eq_nil_iff.2 fun b hb => by simpa using h (List.mem_eraseDups.1 hb)
  rw [eraseDups_append_filter, hnew, List.append_nil]

theorem eraseDups_concat_of_mem {as : List α} {a : α} (h : a ∈ as) :
    (as ++ [a]).eraseDups = as.eraseDups :=
  eraseDups_append_of_subset (by simpa using h)

theorem eraseDups_concat_of_not_mem {as : List α} {a : α} (h : a ∉ as) :
    (as ++ [a]).eraseDups = as.eraseDups ++ [a] := by
  rw [eraseDups_append_filter, List.eraseDups_cons]
  simp [h]

theorem eraseDups_append_congr {as as' bs bs' : List α} (ha : as.eraseDups = as'.eraseDups)
    (hb : bs.eraseDups = bs'.eraseDups) : (as ++ bs).eraseDups = (as' ++ bs').eraseDups := by
  have hmem : ∀ b, b ∈ as ↔ b ∈ as' := fun b => by
    rw [← List.mem_eraseDups, ha, List.mem_eraseDups]
  rw [eraseDups_append_filter, eraseDups_append_filter, ha, hb]
  simp only [hmem]

/-! ### Order of what is left -/

/-- What comes up at the end for the first time comes after everything before it. -/
theorem pairwise_idxOf_eraseDups (as : List α) :
    as.eraseDups.Pairwise fun a b => as.idxOf a < as.idxOf b := by
  induction as using List.reverseRecOn with
  | nil => exact List.Pairwise.nil
  | append_singleton as c ih =>
    have hold : as.eraseDups.Pairwise fun a b => (as ++ [c]).idxOf a < (as ++ [c]).idxOf b := by
      refine ih.imp_of_mem fun {a b} ha hb hlt => ?_
      rwa [List.idxOf_append_of_mem (List.mem_eraseDups.1 ha),
        List.idxOf_append_of_mem (List.mem_eraseDups.1 hb)]
    by_cases hc : c ∈ as
    · rwa [eraseDups_concat_of_mem hc]
    · rw [eraseDups_concat_of_not_mem hc, List.pairwise_append]
      refine ⟨hold, List.pairwise_singleton _ c, fun a ha b hb => ?_⟩
      have ha : a ∈ as := List.mem_eraseDups.1 ha
      rw [List.mem_singleton.1 hb, List.idxOf_append_of_mem ha, List.idxOf_append_of_notMem hc]
      exact Nat.lt_add_right _ (List.idxOf_lt_length_iff.2 ha)

theorem nodup_eraseDups (as : List α) : as.eraseDups.Nodup :=
  (pairwise_idxOf_eraseDups as).imp fun hlt heq => by
    rw [heq] at hlt
    exact Nat.lt_irrefl _ hlt

/-- One of the things in a list is left before another if it comes up first earlier. -/
theorem pair_sublist_eraseDups_iff {as : List α} {a b : α} :
    [a, b].Sublist as.eraseDups ↔ a ∈ as ∧ b ∈ as ∧ as.idxOf a < as.idxOf b := by
  have hforward : ∀ {a b}, [a, b].Sublist as.eraseDups → as.idxOf a < as.idxOf b :=
    List.pairwise_iff_forall_sublist.1 (pairwise_idxOf_eraseDups as)
  constructor
  · intro h
    have hmem : ∀ c ∈ [a, b], c ∈ as := fun c hc => List.mem_eraseDups.1 (h.subset hc)
    exact ⟨hmem a (by simp), hmem b (by simp), hforward h⟩
  · rintro ⟨ha, hb, hlt⟩
    -- Of two different members one comes before the other, and `b` before `a` is excluded.
    obtain ⟨before, after, hsplit⟩ := List.append_of_mem (List.mem_eraseDups.2 ha)
    have hb' : b ∈ before ++ a :: after := hsplit ▸ List.mem_eraseDups.2 hb
    rw [hsplit] at hforward ⊢
    rcases List.mem_append.1 hb' with hbefore | hafter
    · have hba : [b, a].Sublist (before ++ a :: after) :=
        (List.singleton_sublist.2 hbefore).append
          (List.singleton_sublist.2 List.mem_cons_self)
      exact absurd hlt (Nat.lt_asymm (hforward hba))
    · rcases List.mem_cons.1 hafter with rfl | hafter
      · exact absurd hlt (Nat.lt_irrefl _)
      · exact ((List.singleton_sublist.2 hafter).cons_cons a).trans
          (List.sublist_append_right before _)

/-! ### One after the other -/

/-- Notes what has not been noted yet. -/
def noteNew (seen : List α) (a : α) : List α := if a ∈ seen then seen else seen ++ [a]

theorem noteNew_eraseDups (seen : List α) (a : α) :
    noteNew seen.eraseDups a = (seen ++ [a]).eraseDups := by
  by_cases ha : a ∈ seen
  · rw [noteNew, if_pos (List.mem_eraseDups.2 ha), eraseDups_concat_of_mem ha]
  · rw [noteNew, if_neg (List.mem_eraseDups.not.2 ha), eraseDups_concat_of_not_mem ha]

/-- What has been noted is what has come up so far, without repetitions. -/
theorem foldl_noteNew (seen as : List α) :
    as.foldl noteNew seen.eraseDups = (seen ++ as).eraseDups := by
  induction as generalizing seen with
  | nil => rw [List.foldl_nil, List.append_nil]
  | cons a as ih =>
    rw [List.foldl_cons, noteNew_eraseDups, ih, List.append_assoc, List.singleton_append]

/-! ### Lists in the order of keys -/

section

variable {κ : Type} [LinearOrder κ] {entries : List (κ × α)} {a b : α} {k l : κ}

/-- Where something comes up first, it has its least key. -/
theorem exists_isLeast_key (h : entries.Pairwise fun m n => m.1 < n.1)
    (ha : a ∈ entries.map Prod.snd) :
    ∃ k, entries[(entries.map Prod.snd).idxOf a]? = some (k, a) ∧
      IsLeast {k | (k, a) ∈ entries} k := by
  induction entries with
  | nil => exact absurd ha List.not_mem_nil
  | cons e entries ih =>
    obtain ⟨k, c⟩ := e
    obtain ⟨hfirst, h⟩ := List.pairwise_cons.1 h
    by_cases hc : c = a
    · subst hc
      refine ⟨k, by simp, List.mem_cons_self, fun k' hk' => ?_⟩
      rcases List.mem_cons.1 hk' with heq | hmem
      · exact (congrArg Prod.fst heq).ge
      · exact (hfirst _ hmem).le
    · obtain ⟨k', hat, hleast⟩ := ih h (by simpa [Ne.symm hc] using ha)
      refine ⟨k', ?_, by simpa [Ne.symm hc] using hleast⟩
      rw [List.map_cons, List.idxOf_cons_ne _ hc, List.getElem?_cons_succ]
      exact hat

theorem getElem?_idxOf_key (h : entries.Pairwise fun m n => m.1 < n.1)
    (ha : IsLeast {k | (k, a) ∈ entries} k) :
    entries[(entries.map Prod.snd).idxOf a]? = some (k, a) := by
  obtain ⟨k', hat, hleast⟩ := exists_isLeast_key h (List.mem_map_of_mem ha.1)
  rwa [ha.unique hleast]

theorem idxOf_lt_idxOf_iff_key (h : entries.Pairwise fun m n => m.1 < n.1)
    (ha : IsLeast {k | (k, a) ∈ entries} k) (hb : IsLeast {l | (l, b) ∈ entries} l) :
    (entries.map Prod.snd).idxOf a < (entries.map Prod.snd).idxOf b ↔ k < l := by
  have hordered : ∀ {i j : Nat} {m n : κ × α}, entries[i]? = some m → entries[j]? = some n →
      i < j → m.1 < n.1 := by
    intro i j m n hm hn hij
    obtain ⟨hi, rfl⟩ := List.getElem?_eq_some_iff.1 hm
    obtain ⟨hj, rfl⟩ := List.getElem?_eq_some_iff.1 hn
    exact List.pairwise_iff_getElem.1 h i j hi hj hij
  have hk := getElem?_idxOf_key h ha
  have hl := getElem?_idxOf_key h hb
  refine ⟨hordered hk hl, fun hlt => lt_of_not_ge fun hle => ?_⟩
  rcases hle.lt_or_eq with hgt | heq
  · exact lt_asymm hlt (hordered hl hk hgt)
  · rw [heq, hk] at hl
    exact hlt.ne (congrArg Prod.fst (Option.some.inj hl))

/-- With keys in order, what is left stands in the order of the least keys. -/
theorem pair_sublist_eraseDups_iff_key (h : entries.Pairwise fun m n => m.1 < n.1) :
    [a, b].Sublist (entries.map Prod.snd).eraseDups ↔
      ∃ k l, IsLeast {k | (k, a) ∈ entries} k ∧ IsLeast {l | (l, b) ∈ entries} l ∧ k < l := by
  rw [pair_sublist_eraseDups_iff]
  constructor
  · rintro ⟨ha, hb, hlt⟩
    obtain ⟨k, -, hk⟩ := exists_isLeast_key h ha
    obtain ⟨l, -, hl⟩ := exists_isLeast_key h hb
    exact ⟨k, l, hk, hl, (idxOf_lt_idxOf_iff_key h hk hl).1 hlt⟩
  · rintro ⟨k, l, hk, hl, hlt⟩
    exact ⟨List.mem_map_of_mem hk.1, List.mem_map_of_mem hl.1,
      (idxOf_lt_idxOf_iff_key h hk hl).2 hlt⟩

end

end

/-! ### Blocks -/

section

variable {α β : Type} [DecidableEq β]

theorem eraseDups_flatMap_congr {as : List α} {f g : α → List β}
    (h : ∀ a ∈ as, (f a).eraseDups = (g a).eraseDups) :
    (as.flatMap f).eraseDups = (as.flatMap g).eraseDups := by
  induction as with
  | nil => rfl
  | cons a as ih =>
    rw [List.flatMap_cons, List.flatMap_cons]
    exact eraseDups_append_congr (h a List.mem_cons_self)
      (ih fun b hb => h b (List.mem_cons_of_mem a hb))

/-- By induction from the end: the last block either belongs to something new or is one of those
before it. -/
theorem eraseDups_flatMap_eraseDups [DecidableEq α] (as : List α) (f : α → List β) :
    (as.eraseDups.flatMap f).eraseDups = (as.flatMap f).eraseDups := by
  induction as using List.reverseRecOn with
  | nil => rfl
  | append_singleton as a ih =>
    rw [List.flatMap_append, List.flatMap_singleton]
    by_cases ha : a ∈ as
    · have hblock : f a ⊆ as.flatMap f := fun b hb => List.mem_flatMap.2 ⟨a, ha, hb⟩
      rw [eraseDups_concat_of_mem ha, ih, eraseDups_append_of_subset hblock]
    · rw [eraseDups_concat_of_not_mem ha, List.flatMap_append, List.flatMap_singleton]
      exact eraseDups_append_congr ih rfl

theorem eraseDups_eraseDups [DecidableEq α] (as : List α) :
    as.eraseDups.eraseDups = as.eraseDups := by
  have h := eraseDups_flatMap_eraseDups as fun a => [a]
  rwa [List.flatMap_singleton', List.flatMap_singleton'] at h

end

end TermAlgebra
