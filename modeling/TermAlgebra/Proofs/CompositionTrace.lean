import TermAlgebra.Proofs.Composition

/-!
# What composition tells about its work

The trace of a composition is read off the two substitutions (`composeTraced_eq`).  If the left one
has bindings, it tells these with the right one applied to their terms, then each variable that both
bind, then each binding that became trivial, and at the end both sides and the result.  Every entry
between the first and the last stands for one binding that is missing from the result, so the length
of the trace tells the size of the result (`size_followedBy`).
-/

namespace TermAlgebra

namespace Substitution

/-! ## The passes -/

/-- What is removed on the way is a variable that has been told, so it matters to none of those that
are yet to come. -/
theorem trace_dropShadowed {vs : List Var} (hvs : vs.Nodup) (right : Substitution) :
    (dropShadowed remove vs right).2 = (vs.filter (· ∈ right)).map .keptLeft := by
  induction vs generalizing right with
  | nil => rfl
  | cons v vs ih =>
    obtain ⟨hv, hvs⟩ := List.nodup_cons.1 hvs
    rw [dropShadowed]
    by_cases hmem : v ∈ right
    · have hlater : vs.filter (· ∈ right.remove v) = vs.filter (· ∈ right) := by
        refine List.filter_congr fun w hw => decide_eq_decide.2 ?_
        have hne : w ≠ v := fun h => hv (h ▸ hw)
        rw [mem_remove, and_iff_left hne]
      have htail := ih hvs (right.remove v)
      rw [hlater] at htail
      rw [if_pos (contains_iff.2 hmem), List.filter_cons_of_pos (by simpa using hmem),
        List.map_cons, ← htail]
    · rw [if_neg (mt contains_iff.1 hmem), ih hvs, List.filter_cons_of_neg (by simpa using hmem)]

theorem trace_dropTrivial (drop : Substitution → Var → Substitution) (bs : List (Var × Term))
    (left : Substitution) :
    (dropTrivial drop bs left).2 =
      (bs.filter fun b => isTrivial b).map fun b => .droppedTrivial b.1 b.2 := by
  induction bs generalizing left with
  | nil => rfl
  | cons b bs ih =>
    rw [dropTrivial]
    by_cases hb : isTrivial b = true
    · rw [if_pos hb, List.filter_cons_of_pos hb, List.map_cons, ← ih (drop left b.1)]
    · rw [if_neg hb, ih, List.filter_cons_of_neg hb]

/-! ## The trace -/

/-- What composing `s₁` with `s₂` tells if `s₁` has bindings. -/
def story (s₁ s₂ : Substitution) : List Trace :=
  .appliedRight (s₁.applied s₂) :: (s₁.domain.filter (· ∈ s₂)).map .keptLeft ++
    (((s₁.applied s₂).bindings.filter fun b => isTrivial b).map fun b =>
      .droppedTrivial b.1 b.2) ++
    [.finished s₁ s₂ (s₁.followedBy s₂)]

theorem composeTraced_eq (s₁ s₂ : Substitution) :
    composeTraced s₁ s₂ = .ok (s₁.followedBy s₂, if s₁.isEmpty then [] else s₁.story s₂) := by
  by_cases hempty : s₁.isEmpty = true
  · rw [composeTraced, composeWith, if_pos hempty, if_pos hempty, followedBy_of_isEmpty hempty]
  · rw [composeTraced, composeWith_eq remove hempty, unite_dropped, if_neg hempty,
      trace_dropShadowed s₁.domain_nodup, trace_dropTrivial]
    rfl

/-! ## Sizes -/

/-- Either side has as many of the variables that both bind. -/
theorem length_filter_mem (s₁ s₂ : Substitution) :
    (s₁.domain.filter (· ∈ s₂)).length = (s₂.bindings.filter fun b => b.1 ∈ s₁).length := by
  have hperm : (s₁.domain.filter (· ∈ s₂)).Perm (s₂.domain.filter (· ∈ s₁)) := by
    rw [List.perm_ext_iff_of_nodup (s₁.domain_nodup.filter _) (s₂.domain_nodup.filter _)]
    intro v
    simp [mem_iff, and_comm]
  rw [hperm.length_eq, domain, List.filter_map, List.length_map]
  rfl

/-- A binding of either side that the result does not have was hidden by the other side or became
trivial. -/
theorem size_followedBy (s₁ s₂ : Substitution) :
    (s₁.followedBy s₂).size + (s₁.domain.filter (· ∈ s₂)).length +
      ((s₁.applied s₂).bindings.filter fun b => isTrivial b).length = s₁.size + s₂.size := by
  have hleft : ((s₁.applied s₂).bindings.filter fun b => isTrivial b).length +
      ((s₁.applied s₂).bindings.filter fun b => b.2 ≠ .var b.1).length = s₁.size := by
    have hsplit := (s₁.applied s₂).bindings.length_eq_length_filter_add isTrivial
    rw [List.filter_congr fun b _ => not_isTrivial b] at hsplit
    rw [← hsplit, bindings_applied, List.length_map, size]
  have hright : (s₂.bindings.filter fun b => b.1 ∈ s₁).length +
      (s₂.bindings.filter fun b => b.1 ∉ s₁).length = s₂.size := by
    have hsplit := s₂.bindings.length_eq_length_filter_add fun b => decide (b.1 ∈ s₁)
    simpa [size] using hsplit.symm
  have hresult : (s₁.followedBy s₂).size =
      ((s₁.applied s₂).bindings.filter fun b => b.2 ≠ .var b.1).length +
        (s₂.bindings.filter fun b => b.1 ∉ s₁).length := List.length_append
  rw [length_filter_mem]
  omega

theorem length_story (s₁ s₂ : Substitution) :
    (s₁.followedBy s₂).size + (s₁.story s₂).length = s₁.size + s₂.size + 2 := by
  have hsize := size_followedBy s₁ s₂
  simp only [story, List.length_append, List.length_cons, List.length_map, List.length_nil]
  omega

/-! ## Messages -/

theorem filter_isTrivial_applied (s₁ s₂ : Substitution) :
    ((s₁.applied s₂).bindings.filter fun b => isTrivial b) =
      (s₁.bindings.filter fun b => s₂.apply b.2 = .var b.1).map fun b => (b.1, s₂.apply b.2) := by
  rw [bindings_applied, List.filter_map]
  refine congrArg (List.map _) (List.filter_congr fun b _ => ?_)
  rw [Bool.eq_iff_iff, decide_eq_true_iff]
  exact isTrivial_iff

/-- A binding that became trivial has the variable on both sides of the arrow. -/
theorem map_message_trivial (s₁ s₂ : Substitution) :
    (((s₁.applied s₂).bindings.filter fun b => isTrivial b).map fun b =>
        Trace.message (.droppedTrivial b.1 b.2)) =
      (s₁.bindings.filter fun b => s₂.apply b.2 = .var b.1).map fun b =>
        "compose: dropping trivial binding " ++ b.1.name ++ " -> " ++ b.1.name := by
  rw [filter_isTrivial_applied, List.map_map]
  refine List.map_congr_left fun b hb => ?_
  have htrivial : s₂.apply b.2 = .var b.1 := by simpa using (List.mem_filter.1 hb).2
  have hmessage : Trace.message (.droppedTrivial b.1 (s₂.apply b.2)) =
      "compose: dropping trivial binding " ++ b.1.name ++ " -> " ++ (s₂.apply b.2).render := rfl
  rw [Function.comp_apply, hmessage, htrivial, Term.render_var]

theorem map_message_story (s₁ s₂ : Substitution) :
    (s₁.story s₂).map Trace.message =
      ["compose: rewrote left bindings to " ++ (s₁.applied s₂).render] ++
      ((s₁.domain.filter (· ∈ s₂)).map fun v =>
        "compose: " ++ v.name ++ " bound on both sides, keeping left binding") ++
      ((s₁.bindings.filter fun b => s₂.apply b.2 = .var b.1).map fun b =>
        "compose: dropping trivial binding " ++ b.1.name ++ " -> " ++ b.1.name) ++
      ["compose: " ++ s₁.render ++ " . " ++ s₂.render ++ " = " ++ (s₁.followedBy s₂).render] := by
  rw [← map_message_trivial, story]
  simp only [List.map_append, List.map_cons, List.map_map, List.map_nil]
  rfl

/-! ## The notes of a composition -/

/-- Composing tells nothing if there is nothing on the left, and otherwise it tells what it did, in
four parts, each in the order of the bindings on the left.  The number of notes gives the size of
the result.  These are also the notes of the operations that compose substitutions of a store. -/
theorem notes_composed (s₁ s₂ : Substitution) :
    ∃ r trace, s₁.compose s₂ = .ok r ∧ s₁.composeTraced s₂ = .ok (r, trace) ∧
      (∀ note ∈ (Outcome.composed r trace).notes,
        note.level = .debug ∧ note.channel = .substitution) ∧
      (s₁.isEmpty = true → (Outcome.composed r trace).notes = []) ∧
      (s₁.isEmpty = false →
        (Outcome.composed r trace).notes.map Note.message =
          ["compose: rewrote left bindings to " ++ (s₁.applied s₂).render] ++
          ((s₁.domain.filter (· ∈ s₂)).map fun v =>
            "compose: " ++ v.name ++ " bound on both sides, keeping left binding") ++
          ((s₁.bindings.filter fun b => s₂.apply b.2 = .var b.1).map fun b =>
            "compose: dropping trivial binding " ++ b.1.name ++ " -> " ++ b.1.name) ++
          ["compose: " ++ s₁.render ++ " . " ++ s₂.render ++ " = " ++ r.render]) ∧
      (s₁.isEmpty = false →
        (r.size : Int) =
          s₁.size + s₂.size - ((Outcome.composed r trace).notes.length - 2)) ∧
      (s₁.WellShaped → s₂.WellShaped → ∀ (store : Store) (i j : Nat),
        store.substitution i = s₁ → store.substitution j = s₂ →
          ∀ op ∈ [SubstitutionOperation.compose, .composeMethod],
            op.run store [.substitution i, .substitution j] = .ok (.composed r trace)) := by
  refine ⟨_, _, compose_eq_ok s₁ s₂, composeTraced_eq s₁ s₂, ?_, ?_, ?_, ?_, ?_⟩
  · intro note hnote
    obtain ⟨entry, -, rfl⟩ := List.mem_map.1 hnote
    exact ⟨rfl, rfl⟩
  · intro hempty
    rw [if_pos hempty]
    rfl
  · intro hempty
    rw [hempty, ← map_message_story]
    exact List.map_map
  · intro hempty
    have hlength := length_story s₁ s₂
    rw [hempty]
    have hnotes : (Outcome.composed (s₁.followedBy s₂)
        (if false = true then [] else s₁.story s₂)).notes.length = (s₁.story s₂).length :=
      List.length_map ..
    omega
  · rintro h₁ h₂ store i j rfl rfl op hop
    rw [run_compose h₁ h₂ op hop, composeTraced_eq]
    rfl

/-- `{x -> y, z -> f(y)}` followed by `{y -> x, x -> a, w -> w}`: four notes, so two of the five
bindings are not in the result. -/
theorem notes_composed_trivial_left :
    ∃ r trace, SubstitutionOperation.compose.run
        ⟨[⟨[(⟨"x"⟩, .var ⟨"y"⟩), (⟨"z"⟩, .app ⟨"f", 1⟩ [.var ⟨"y"⟩])], by decide⟩,
          ⟨[(⟨"y"⟩, .var ⟨"x"⟩), (⟨"x"⟩, .const "a"), (⟨"w"⟩, .var ⟨"w"⟩)], by decide⟩], [], 0⟩
        [.substitution 0, .substitution 1] = .ok (.composed r trace) ∧
      (Outcome.composed r trace).notes.map Note.message =
        ["compose: rewrote left bindings to {x -> x, z -> f(x)}",
          "compose: x bound on both sides, keeping left binding",
          "compose: dropping trivial binding x -> x",
          "compose: {x -> y, z -> f(y)} . {y -> x, x -> a, w -> w} = {z -> f(x), y -> x, w -> w}"] ∧
      r.size = 3 := by
  obtain ⟨r, trace, hr, -, -, -, hmessages, hsize, hrun⟩ := notes_composed
    ⟨[(⟨"x"⟩, .var ⟨"y"⟩), (⟨"z"⟩, .app ⟨"f", 1⟩ [.var ⟨"y"⟩])], by decide⟩
    ⟨[(⟨"y"⟩, .var ⟨"x"⟩), (⟨"x"⟩, .const "a"), (⟨"w"⟩, .var ⟨"w"⟩)], by decide⟩
  have hnotes := congrArg List.length (hmessages rfl)
  have hcount := hsize rfl
  rw [List.length_map] at hnotes
  rw [hnotes] at hcount
  rw [compose_eq_ok] at hr
  cases hr
  exact ⟨_, trace, hrun (by decide) (by decide) _ 0 1 rfl rfl .compose (by decide),
    (hmessages rfl).trans (by decide), Int.ofNat.inj hcount⟩

end Substitution

end TermAlgebra
