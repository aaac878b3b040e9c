import TermAlgebra.Proofs.ValidState

/-!
# The history of substitutions

Substitutions are shared by reference and changed in place.  A session is told by the substitutions
that its steps make (`State.madeBy`) and by the edits that they carry out (`State.edits`), and the
bindings of each substitution are, at any time, what its own edits make of those that it was made
with (`State.Valid.bindings_after`).
-/

namespace TermAlgebra

/-! ## Replaying -/

namespace Edit

/-- Those of several edits that are of the substitution with a number. -/
def concerning (id : Nat) (edits : List (Nat × Edit)) : List Edit :=
  (edits.filter (·.1 == id)).map Prod.snd

/-- What edits make of lists of bindings, each edit being of the list with its number. -/
def replayAll (edits : List (Nat × Edit)) (bss : List (List (Var × Term))) :
    List (List (Var × Term)) :=
  bss.mapIdx fun id bs => replay (concerning id edits) bs

variable {id : Nat} {e : Edit} {edits edits' : List (Nat × Edit)} {bs : List (Var × Term)}
  {bss bss' : List (List (Var × Term))}

theorem concerning_append :
    concerning id (edits ++ edits') = concerning id edits ++ concerning id edits' := by
  rw [concerning, List.filter_append, List.map_append, concerning, concerning]

theorem concerning_self : concerning id [(id, e)] = [e] := by
  simp [concerning]

theorem concerning_eq_nil (h : ∀ p ∈ edits, p.1 ≠ id) : concerning id edits = [] := by
  simpa [concerning] using h

theorem replay_append {l l' : List Edit} : replay (l ++ l') bs = replay l' (replay l bs) :=
  List.foldl_append

theorem getElem?_replayAll :
    (replayAll edits bss)[id]? = bss[id]?.map (replay (concerning id edits)) :=
  List.getElem?_mapIdx

theorem replayAll_nil : replayAll [] bss = bss := by
  refine List.ext_getElem? fun id => ?_
  rw [getElem?_replayAll]
  exact Option.map_id_apply

theorem replayAll_append :
    replayAll (edits ++ edits') bss = replayAll edits' (replayAll edits bss) := by
  refine List.ext_getElem? fun id => ?_
  rw [getElem?_replayAll, getElem?_replayAll, getElem?_replayAll, Option.map_map,
    concerning_append]
  exact congrArg (Option.map · _) (funext fun bs => replay_append)

/-- Edits of what is there leave what comes behind it alone. -/
theorem replayAll_append_right (h : ∀ p ∈ edits, p.1 < bss.length) :
    replayAll edits (bss ++ bss') = replayAll edits bss ++ bss' := by
  have hlength : (replayAll edits bss).length = bss.length := List.length_mapIdx
  refine List.ext_getElem? fun id => ?_
  rw [getElem?_replayAll]
  rcases Nat.lt_or_ge id bss.length with hid | hid
  · rw [List.getElem?_append_left hid, List.getElem?_append_left (hlength ▸ hid),
      getElem?_replayAll]
  · have hnone : concerning id edits = [] :=
      concerning_eq_nil fun p hp hpid => by have := h p hp; omega
    rw [List.getElem?_append_right hid, List.getElem?_append_right (hlength ▸ hid), hlength, hnone]
    exact Option.map_id_apply

/-- A single edit changes a single list. -/
theorem replayAll_singleton (hbs : bss[id]? = some bs) :
    replayAll [(id, e)] bss = bss.set id (e.apply bs) := by
  have hlt : id < bss.length := (List.getElem?_eq_some_iff.1 hbs).1
  refine List.ext_getElem? fun id' => ?_
  rw [getElem?_replayAll]
  by_cases hid : id = id'
  · subst hid
    rw [concerning_self, hbs, List.getElem?_set_self hlt]
    rfl
  · have hnone : concerning id' [(id, e)] = [] :=
      concerning_eq_nil fun p hp => by rwa [List.mem_singleton.1 hp]
    rw [hnone, List.getElem?_set_ne hid]
    exact Option.map_id_apply

end Edit

/-! ## What a session makes and edits -/

/-- The substitutions that an action makes. -/
def Action.made : Action → List Substitution
  | .makeSubstitution s => [s]
  | _ => []

namespace State

/-- The substitutions that a step makes: those in its arguments and the one that its operation asks
for, if it does.  A step that fails makes none. -/
def made (state : State) (s : Step) : List Substitution :=
  match state.outcome s with
  | .error _ => []
  | .ok (o, store) =>
    store.substitutions.drop state.store.substitutions.length ++ o.action.made

/-- The edit that a step carries out, with the number of the substitution that it edits.  A step
that fails carries out none. -/
def edit? (state : State) (s : Step) : Option (Nat × Edit) :=
  match (Expression.evalItems state.registers s.args).run state.store with
  | .error _ => none
  | .ok (args, store) =>
    match s.op.run store args with
    | .error _ => none
    | .ok _ => s.op.edit? args

/-- The substitutions that a session makes, in order. -/
def madeBy (state : State) : List Step → List Substitution
  | [] => []
  | s :: steps => state.made s ++ (state.step s).2.madeBy steps

/-- The edits that a session carries out, in order. -/
def edits (state : State) : List Step → List (Nat × Edit)
  | [] => []
  | s :: steps => (state.edit? s).toList ++ (state.step s).2.edits steps

end State

/-! ## One step -/

/-- The lists of bindings of the substitutions in a store. -/
def Store.bindings (store : Store) : List (List (Var × Term)) :=
  store.substitutions.map (·.bindings)

theorem Store.getElem?_bindings {store : Store} {id : Nat}
    (h : id < store.substitutions.length) :
    store.bindings[id]? = some (store.substitution id).bindings := by
  simp [Store.bindings, Store.substitution, List.getElem?_eq_getElem h]

/-- Committing to an action appends what it makes, and edits as it says. -/
theorem Action.CarriesOut.bindings_commit {store : Store} {edit : Option (Nat × Edit)} {a : Action}
    (hvalid : a.Valid store) (h : a.CarriesOut store edit) :
    (a.commit store).2.bindings =
      Edit.replayAll edit.toList (store.bindings ++ a.made.map (·.bindings)) := by
  cases a with
  | setSubstitution id s =>
    obtain ⟨e, rfl, hs⟩ := h
    change _ = Edit.replayAll [(id, e)] (store.bindings ++ [])
    rw [List.append_nil, Edit.replayAll_singleton (Store.getElem?_bindings hvalid.1), ← hs]
    exact List.map_set
  | makeSubstitution s =>
    obtain rfl := h
    rw [Option.toList, Edit.replayAll_nil]
    exact List.map_append
  | yield _ | makeContext _ | setContext _ _ =>
    obtain rfl := h
    rw [Option.toList, Edit.replayAll_nil]
    exact (List.append_nil _).symm

namespace State

variable {state : State} {s : Step} {args : List Value} {store : Store} {o : Outcome}

theorem Takes.made_eq (h : state.Takes s args store o) :
    state.made s = store.substitutions.drop state.store.substitutions.length ++ o.action.made := by
  rw [made, h.outcome]

theorem Takes.edit?_eq (h : state.Takes s args store o) : state.edit? s = s.op.edit? args := by
  simp [edit?, h.built, h.answered]

theorem made_of_error {fault : Fault} (h : state.outcome s = .error fault) :
    state.made s = [] := by
  rw [made, h]

/-- An edit comes from a step that succeeds. -/
theorem takes_of_edit? {p : Nat × Edit} (h : state.edit? s = some p) :
    ∃ args store o, state.Takes s args store o ∧ s.op.edit? args = some p := by
  unfold edit? at h
  split at h
  · cases h
  · next args store hbuilt =>
    split at h
    · cases h
    · next o hanswered => exact ⟨args, store, o, ⟨hbuilt, hanswered⟩, h⟩

theorem edit?_of_error {fault : Fault} (h : state.outcome s = .error fault) :
    state.edit? s = none := by
  refine Option.eq_none_iff_forall_ne_some.2 fun p hp => ?_
  obtain ⟨args, store, o, ht, -⟩ := takes_of_edit? hp
  rw [ht.outcome] at h
  cases h

namespace Valid

/-- The arguments of a step append the substitutions that they make. -/
theorem bindings_built (h : state.Valid) (ht : state.Takes s args store o) :
    store.bindings = state.store.bindings ++
      (store.substitutions.drop state.store.substitutions.length).map (·.bindings) := by
  rw [Store.bindings, Store.bindings, ← List.map_append,
    List.prefix_iff_eq_append.1 (h.built ht).1.substitutions]

/-- A step appends the substitutions that it makes and carries its edit out, if it has one. -/
theorem bindings_step (h : state.Valid) (s : Step) :
    (state.step s).2.store.bindings =
      Edit.replayAll (state.edit? s).toList
        (state.store.bindings ++ (state.made s).map (·.bindings)) := by
  rcases step_cases state s with ⟨args, store, o, ht⟩ | ⟨fault, houtcome, hstep⟩
  · have hsound := h.sound ht
    rw [ht.step, ht.edit?_eq, ht.made_eq, List.map_append, ← List.append_assoc,
      ← h.bindings_built ht]
    exact hsound.2.bindings_commit hsound.1
  · rw [hstep, edit?_of_error houtcome, made_of_error houtcome, Option.toList,
      Edit.replayAll_nil]
    exact (List.append_nil _).symm

/-- What is edited was made before the step or in its arguments. -/
theorem edit?_lt (h : state.Valid) {p : Nat × Edit} (hp : state.edit? s = some p) :
    p.1 < (state.store.bindings ++ (state.made s).map (·.bindings)).length := by
  obtain ⟨args, store, o, ht, hedit⟩ := takes_of_edit? hp
  have hsound := h.sound ht
  rw [hedit] at hsound
  rw [ht.made_eq, List.map_append, ← List.append_assoc, ← h.bindings_built ht, List.length_append]
  suffices hlt : p.1 < store.substitutions.length by
    rw [Store.bindings, List.length_map]
    omega
  obtain ⟨hvalid, hcarries⟩ := hsound
  cases haction : o.action with
  | setSubstitution id s' =>
    rw [haction] at hvalid hcarries
    obtain ⟨e, he, -⟩ := hcarries
    cases he
    exact hvalid.1
  | _ =>
    rw [haction] at hcarries
    cases hcarries

/-! ## Sessions -/

/-- A session appends the substitutions that it makes and carries its edits out. -/
theorem bindings_after (h : state.Valid) (steps : List Step) :
    (state.after steps).store.bindings =
      Edit.replayAll (state.edits steps)
        (state.store.bindings ++ (state.madeBy steps).map (·.bindings)) := by
  induction steps generalizing state with
  | nil =>
    rw [edits, madeBy, List.map_nil, List.append_nil, Edit.replayAll_nil]
    rfl
  | cons s steps ih =>
    -- What is made later is out of reach of the first step's edit, so it may stand there already.
    have hlt : ∀ p ∈ (state.edit? s).toList,
        p.1 < (state.store.bindings ++ (state.made s).map (·.bindings)).length :=
      fun p hp => h.edit?_lt (Option.mem_toList.1 hp)
    rw [edits, madeBy, List.map_append, ← List.append_assoc, Edit.replayAll_append,
      Edit.replayAll_append_right hlt, ← h.bindings_step s]
    exact ih (h.step s)

end Valid

end State

end TermAlgebra
