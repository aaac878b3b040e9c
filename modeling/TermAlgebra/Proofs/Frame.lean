import TermAlgebra.Proofs.History

/-!
# What a session changes and what it leaves alone

A substitution is changed by the edits of that very substitution and by nothing else
(`State.Valid.bindings_substitution_after`), a step that does not add or remove changes none
(`State.Valid.substitution_step`), and what the operations that make substitutions hand back is
referred to by nothing that was there before (`State.Valid.new_of_makes`).
-/

namespace TermAlgebra

/-- The operations that change a substitution. -/
def Operation.editors : List Operation := [.substitution .add, .substitution .remove]

/-- The operations that hand back a substitution. -/
def Operation.makers : List Operation :=
  [.substitution .empty, .substitution .ofPairs, .substitution .ofPairsAnd, .substitution .copy,
    .substitution .copyMethod, .substitution .compose, .substitution .composeMethod,
    .substitution .composeKeeping, .substitution .withoutTrivial]

/-! ## Actions of operations -/

namespace Operation

variable {store : Store} {args : List Value}

theorem editor_of_edit? {op : Operation} {p : Nat × Edit} (h : op.edit? args = some p) :
    op ∈ editors ∧ args.head? = some (.substitution p.1) := by
  unfold edit? at h
  split at h
  · cases h
    exact ⟨List.mem_cons_self, rfl⟩
  · cases h
    exact ⟨List.mem_cons_of_mem _ List.mem_cons_self, rfl⟩
  · cases h

theorem ensures_setSubstitution {op : Operation} (h : op ∈ editors) :
    Ensures (op.run store args) fun o => ∃ id s, o.action = .setSubstitution id s := by
  simp only [editors, List.mem_cons, List.not_mem_nil, or_false] at h
  rcases h with rfl | rfl
  · exact .bind_any fun _ => .bind_any fun id => .bind_any fun s => .pure ⟨id, s, rfl⟩
  · exact .bind_any fun _ => .bind_any fun id => .bind_any fun v => .pure ⟨id, _, rfl⟩

theorem ensures_makeSubstitution {op : Operation} (h : op ∈ makers) :
    Ensures (op.run store args) fun o => ∃ s, o.action = .makeSubstitution s := by
  have hcopied : ∀ s, Ensures (SubstitutionOperation.copied s) fun o =>
      ∃ s, o.action = .makeSubstitution s :=
    fun _ => .bind_any fun s => .pure ⟨s, rfl⟩
  have hcomposition : ∀ compose x y,
      Ensures (SubstitutionOperation.composition store compose x y) fun o =>
        ∃ s, o.action = .makeSubstitution s :=
    fun _ _ _ => .bind_any fun _ => .bind_any fun _ => .bind_any fun _ => .bind_any fun s =>
      .pure ⟨s, rfl⟩
  simp only [makers, List.mem_cons, List.not_mem_nil, or_false] at h
  rcases h with rfl | rfl | rfl | rfl | rfl | rfl | rfl | rfl | rfl
  · exact .pure ⟨∅, rfl⟩
  · exact .bind_any fun _ => .bind_any fun s => .pure ⟨s, rfl⟩
  · exact .bind_any fun _ => .bind_any fun _ => .bind_any fun s => .pure ⟨s, rfl⟩
  · exact .bind_any fun _ => .bind_any fun s => hcopied s
  · exact .bind_any fun _ => .bind_any fun _ => hcopied _
  · exact .bind_any fun _ => hcomposition _ _ _
  · exact .bind_any fun _ => .bind_any fun _ => hcomposition _ _ _
  · exact .bind_any fun _ => hcomposition _ _ _
  · exact .bind_any fun _ => .bind_any fun _ => hcopied _

end Operation

theorem Store.nodup_bindings (store : Store) : ∀ bs ∈ store.bindings, (bs.map Prod.fst).Nodup :=
  List.forall_mem_map.2 fun s _ => s.distinct

/-- No valid value refers to a substitution that is yet to be made. -/
theorem Value.Valid.not_mem_leaves {store : Store} {x : Value} {id : Nat} (h : x.Valid store)
    (hid : store.substitutions.length ≤ id) : .substitution id ∉ x.leaves :=
  fun hmem => Nat.not_lt.2 hid (h _ hmem)

namespace State

variable {state : State} {s : Step}

/-- The states of a run are those after the initial parts of the session. -/
theorem states_run (state : State) (steps : List Step) :
    (state.run steps).map Prod.snd =
      (List.range steps.length).map fun n => state.after (steps.take (n + 1)) := by
  induction steps generalizing state with
  | nil => rfl
  | cons s steps ih =>
    rw [List.length_cons, List.range_succ_eq_map, List.map_cons, List.map_map]
    exact congrArg (_ :: ·) (ih _)

/-- A step that fails changes nothing. -/
theorem step_of_failed (h : ∀ a, (state.step s).1 ≠ .ok a) : (state.step s).2 = state := by
  rcases step_cases state s with ⟨args, store, o, ht⟩ | ⟨fault, -, hstep⟩
  · rw [ht.step] at h
    exact absurd rfl (h _)
  · rw [hstep]

/-- What is edited is what the operation was called on. -/
theorem receiver_of_edit? {p : Nat × Edit} (h : state.edit? s = some p) :
    ∃ args store o, state.Takes s args store o ∧ args.head? = some (.substitution p.1) := by
  obtain ⟨args, store, o, ht, hedit⟩ := takes_of_edit? h
  exact ⟨args, store, o, ht, (Operation.editor_of_edit? hedit).2⟩

namespace Valid

/-! ## One substitution -/

/-- What becomes of a substitution, from any state on, is told by its own edits. -/
theorem bindings_substitution_after (h : state.Valid) (steps : List Step) {id : Nat}
    (hid : id < state.store.substitutions.length) :
    ((state.after steps).store.substitution id).bindings =
      Edit.replay (Edit.concerning id (state.edits steps))
        (state.store.substitution id).bindings := by
  have hbefore : id < state.store.bindings.length := by rwa [Store.bindings, List.length_map]
  have hafter := congrArg (·[id]?) (h.bindings_after steps)
  simp only [Edit.getElem?_replayAll, List.getElem?_append_left hbefore,
    Store.getElem?_bindings hid, Option.map_some] at hafter
  have hlt : id < (state.after steps).store.substitutions.length := by
    have := (List.getElem?_eq_some_iff.1 hafter).1
    rwa [Store.bindings, List.length_map] at this
  rw [Store.getElem?_bindings hlt] at hafter
  exact Option.some.inj hafter

/-- A variable that is removed and added again moves to the end. -/
theorem bindings_of_remove_add (h : state.Valid) {steps : List Step} {id : Nat} {v : Var} {t : Term}
    {edits : List Edit} (hid : id < state.store.substitutions.length)
    (hedits : Edit.concerning id (state.edits steps) = .remove v :: edits ++ [.add v t]) :
    ((state.after steps).store.substitution id).bindings =
      Edit.replay edits ((state.store.substitution id).bindings.filter (·.1 ≠ v)) ++ [(v, t)] := by
  rw [h.bindings_substitution_after steps hid, hedits, Edit.replay_append]
  have hremove : Edit.replay (.remove v :: edits) (state.store.substitution id).bindings =
      Edit.replay edits ((state.store.substitution id).remove v).bindings := by
    rw [Edit.apply_remove]
    rfl
  rw [hremove, Substitution.bindings_remove]
  rfl

/-! ## One step -/

/-- A step edits a substitution if it succeeds and its operation is to add or to remove. -/
theorem edit?_isSome_iff (h : state.Valid) :
    (state.edit? s).isSome ↔ (∃ a, (state.step s).1 = .ok a) ∧ s.op ∈ Operation.editors := by
  constructor
  · intro hsome
    obtain ⟨p, hp⟩ := Option.isSome_iff_exists.1 hsome
    obtain ⟨args, store, o, ht, hedit⟩ := takes_of_edit? hp
    exact ⟨⟨_, congrArg Prod.fst ht.step⟩, (Operation.editor_of_edit? hedit).1⟩
  · rintro ⟨⟨a, ha⟩, hop⟩
    rcases step_cases state s with ⟨args, store, o, ht⟩ | ⟨fault, -, hstep⟩
    · obtain ⟨id, s', haction⟩ := Operation.ensures_setSubstitution hop o ht.answered
      obtain ⟨-, hcarries⟩ := h.sound ht
      rw [haction] at hcarries
      obtain ⟨e, he, -⟩ := hcarries
      rw [ht.edit?_eq, he]
      rfl
    · rw [hstep] at ha
      cases ha

/-- A step of any other operation leaves every substitution as it was. -/
theorem substitution_step (h : state.Valid) (hop : s.op ∉ Operation.editors) {id : Nat}
    (hid : id < state.store.substitutions.length) :
    (state.step s).2.store.substitution id = state.store.substitution id := by
  have hnone : state.edit? s = none := by
    rw [← Option.not_isSome_iff_eq_none, h.edit?_isSome_iff]
    exact fun hs => hop hs.2
  have hafter := h.bindings_substitution_after [s] hid
  rw [edits, edits, hnone] at hafter
  exact Substitution.ext hafter

/-- What is handed back by an operation that makes substitutions is a new one. -/
theorem new_of_makes (h : state.Valid) (hop : s.op ∈ Operation.makers) {x : Value}
    {notes : List Note} (hx : (state.step s).1 = .ok (x, notes)) :
    ∃ args store o id, state.Takes s args store o ∧ x = .substitution id ∧
      state.store.substitutions.length ≤ id ∧
      (∀ y ∈ args, .substitution id ∉ y.leaves) ∧
      ∀ r ∈ state.registers, .substitution id ∉ r.2.leaves := by
  rcases step_cases state s with ⟨args, store, o, ht⟩ | ⟨fault, -, hstep⟩
  · obtain ⟨s', haction⟩ := Operation.ensures_makeSubstitution hop o ht.answered
    obtain ⟨hext, -, hargs⟩ := h.built ht
    rw [ht.step, haction] at hx
    cases hx
    refine ⟨args, store, o, _, ht, rfl, hext.length_le, fun y hy => ?_, fun r hr => ?_⟩
    · exact (hargs y hy).not_mem_leaves (Nat.le_refl _)
    · exact (h.registers r hr).not_mem_leaves hext.length_le
  · rw [hstep] at hx
    cases hx

end Valid

/-! ## Sessions -/

theorem bindings_after_start (steps : List Step) :
    (start.after steps).store.bindings =
      Edit.replayAll (start.edits steps) ((start.madeBy steps).map (·.bindings)) :=
  valid_start.bindings_after steps

/-- At every point of a session the bindings of each substitution are what its own edits, and no
others, make of those that it was made with, and bind no variable twice.  From any state on only its
own edits tell in a substitution, whatever was made from it or it was made from.  A step that fails
changes nothing; one that succeeds edits the substitution that it adds to or removes from, and none
if it does neither.  The operations that make substitutions hand back one that nothing referred to
before. -/
theorem substitutions_in_session (steps : List Step) :
    let state := start.after steps
    (start.run steps).map Prod.snd =
        (List.range steps.length).map (fun n => start.after (steps.take (n + 1))) ∧
      state.store.bindings =
        Edit.replayAll (start.edits steps) ((start.madeBy steps).map (·.bindings)) ∧
      (∀ bs ∈ Edit.replayAll (start.edits steps) ((start.madeBy steps).map (·.bindings)),
        (bs.map Prod.fst).Nodup) ∧
      (∀ later id, id < state.store.substitutions.length →
        ((state.after later).store.substitution id).bindings =
          Edit.replay (Edit.concerning id (state.edits later))
            (state.store.substitution id).bindings) ∧
      (∀ later id v t edits, id < state.store.substitutions.length →
        Edit.concerning id (state.edits later) = .remove v :: edits ++ [.add v t] →
        ((state.after later).store.substitution id).bindings =
          Edit.replay edits ((state.store.substitution id).bindings.filter (·.1 ≠ v)) ++
            [(v, t)]) ∧
      ∀ s,
        ((∀ a, (state.step s).1 ≠ .ok a) → (state.step s).2 = state) ∧
        ((state.edit? s).isSome ↔
          (∃ a, (state.step s).1 = .ok a) ∧ s.op ∈ Operation.editors) ∧
        (∀ p, state.edit? s = some p → ∃ args store o, state.Takes s args store o ∧
          args.head? = some (.substitution p.1)) ∧
        (s.op ∉ Operation.editors → ∀ id < state.store.substitutions.length,
          (state.step s).2.store.substitution id = state.store.substitution id) ∧
        (s.op ∈ Operation.makers → ∀ x notes, (state.step s).1 = .ok (x, notes) →
          ∃ args store o id, state.Takes s args store o ∧ x = .substitution id ∧
            state.store.substitutions.length ≤ id ∧
            (∀ y ∈ args, .substitution id ∉ y.leaves) ∧
            ∀ r ∈ state.registers, .substitution id ∉ r.2.leaves) := by
  intro state
  have h : state.Valid := valid_after_start steps
  refine ⟨states_run start steps, bindings_after_start steps, ?_, ?_, ?_,
    fun s => ⟨?_, ?_, ?_, ?_, ?_⟩⟩
  · rw [← bindings_after_start steps]
    exact state.store.nodup_bindings
  · exact fun later id hid => h.bindings_substitution_after later hid
  · exact fun later id v t edits hid hedits => h.bindings_of_remove_add hid hedits
  · exact step_of_failed
  · exact h.edit?_isSome_iff
  · exact fun p hp => receiver_of_edit? hp
  · exact fun hop id hid => h.substitution_step hop hid
  · exact fun hop x notes hx => h.new_of_makes hop hx

/-- Two registers for one substitution, and a third for what it is composed to with itself. -/
def sharing : List Step :=
  [⟨.substitution .ofPairs, [.list [.tuple [.var (.text "x"), .var (.text "y")],
      .tuple [.var (.text "z"), .const (.text "k")]]], some "a"⟩,
    ⟨.general .identity, [.register "a"], some "b"⟩,
    ⟨.substitution .compose, [.register "a", .register "b"], some "c"⟩]

/-- A removal through one of the registers and an addition through the other. -/
def rebinding : List Step :=
  [⟨.substitution .remove, [.register "b", .var (.text "x")], none⟩,
    ⟨.substitution .add, [.register "a", .var (.text "x"), .const (.text "m")], none⟩]

/-- The rebound variable moves to the end, and the composed substitution stays as it was. -/
theorem rebinding_through_shared_registers :
    let state := start.after sharing
    (0 < state.store.substitutions.length ∧ 1 < state.store.substitutions.length) ∧
      Edit.concerning 0 (state.edits rebinding) =
        [.remove ⟨"x"⟩, .add ⟨"x"⟩ (.const "m")] ∧
      ((state.after rebinding).store.substitution 0).bindings =
        [(⟨"z"⟩, .const "k"), (⟨"x"⟩, .const "m")] ∧
      ((state.after rebinding).store.substitution 1).bindings =
        [(⟨"x"⟩, .var ⟨"y"⟩), (⟨"z"⟩, .const "k")] := by
  obtain ⟨-, -, -, hafter, hmoves, -⟩ := substitutions_in_session sharing
  have hlength : 0 < (start.after sharing).store.substitutions.length ∧
      1 < (start.after sharing).store.substitutions.length := by decide
  have hedits : Edit.concerning 0 ((start.after sharing).edits rebinding) =
      [.remove ⟨"x"⟩, .add ⟨"x"⟩ (.const "m")] := by decide
  refine ⟨hlength, hedits, ?_, ?_⟩
  · exact (hmoves rebinding 0 ⟨"x"⟩ (.const "m") [] hlength.1 hedits).trans (by decide)
  · exact (hafter rebinding 1 hlength.2).trans (by decide)

end State

end TermAlgebra
