import TermAlgebra.Proofs.Effect

/-!
# Valid states

Expressions are evaluated to valid values in a store that only grows (`builds_eval`), so every step
leads from a valid state to a valid one (`valid_after_start`).
-/

namespace TermAlgebra

/-!
## Valid values of expressions

Evaluating an expression adds substitutions to the store, behind those that are there, and changes
nothing else that was made (`Store.Extends`).  Where the registers hold valid values and the store
is valid, so are the value of the expression and the store afterwards (`Expression.builds_eval`).
-/

/-! ### Stores that grow -/

/-- A store extends another if it has all its substitutions, in their places, and its contexts. -/
structure Store.Extends (store store' : Store) : Prop where
  substitutions : store.substitutions <+: store'.substitutions
  contexts : store'.contexts = store.contexts

namespace Store.Extends

variable {store store' store'' : Store}

theorem refl (store : Store) : store.Extends store := ⟨List.prefix_rfl, rfl⟩

theorem trans (h : store.Extends store') (h' : store'.Extends store'') : store.Extends store'' :=
  ⟨h.substitutions.trans h'.substitutions, h'.contexts.trans h.contexts⟩

theorem length_le (h : store.Extends store') :
    store.substitutions.length ≤ store'.substitutions.length :=
  h.substitutions.length_le

theorem newMark (store : Store) : store.Extends store.newMark.2 := ⟨List.prefix_rfl, rfl⟩

theorem newSubstitution (store : Store) (s : Substitution) :
    store.Extends (store.newSubstitution s).2 :=
  ⟨List.prefix_append _ _, rfl⟩

end Store.Extends

/-! ### Rules for computations that build

`Builds m store P` says that `m`, started in `store`, fails or leaves a valid store that extends it,
and that its result satisfies `P` there.
-/

/-- Whatever `m` returns satisfies `P` in the store that it leaves, and that store is valid and
extends `store`. -/
def Builds {α : Type} (m : Build α) (store : Store) (P : Store → α → Prop) : Prop :=
  Ensures (m.run store) fun r => store.Extends r.2 ∧ r.2.Valid ∧ P r.2 r.1

namespace Builds

variable {α β : Type} {store : Store} {P : Store → α → Prop} {Q : Store → β → Prop}

theorem pure {a : α} (hstore : store.Valid) (h : P store a) :
    Builds (pure a : Build α) store P :=
  .ok ⟨.refl store, hstore, h⟩

theorem lift {x : Except Fault α} (hstore : store.Valid) (h : Ensures x (P store)) :
    Builds (liftM x : Build α) store P :=
  h.bind fun _ ha => .ok ⟨.refl store, hstore, ha⟩

theorem bind {m : Build α} {f : α → Build β} (hm : Builds m store P)
    (hf : ∀ store' a, store.Extends store' → store'.Valid → P store' a → Builds (f a) store' Q) :
    Builds (m >>= f) store Q := by
  refine Ensures.bind hm fun r hr => ?_
  obtain ⟨hext, hvalid, hP⟩ := hr
  refine (hf r.2 r.1 hext hvalid hP).mono fun r' hr' => ?_
  exact ⟨hext.trans hr'.1, hr'.2⟩

/-- A step that reads the store. -/
theorem get_bind {f : Store → Build β} (h : Builds (f store) store Q) :
    Builds (get >>= f) store Q := h

/-- A step that fails or has a result without touching the store. -/
theorem lift_bind {x : Except Fault α} {f : α → Build β} {R : α → Prop} (hstore : store.Valid)
    (hx : Ensures x R) (hf : ∀ a, R a → Builds (f a) store Q) :
    Builds (liftM x >>= f) store Q := by
  refine Ensures.bind (x := (liftM x : Build α).run store) (P := fun r => r.2 = store ∧ R r.1) ?_ ?_
  · exact hx.bind fun a ha => .ok ⟨rfl, ha⟩
  · rintro ⟨a, store'⟩ ⟨rfl, ha⟩
    exact hf a ha

end Builds

/-! ### Tables -/

theorem Entries.forall_mem_set {κ α : Type} {same : κ → κ → Bool} {P : κ → Prop} {Q : α → Prop}
    {k : κ} {x : α} {es : List (κ × α)} (hes : ∀ e ∈ es, P e.1 ∧ Q e.2) (hk : P k) (hx : Q x) :
    ∀ e ∈ Entries.set same k x es, P e.1 ∧ Q e.2 := by
  induction es with
  | nil =>
    intro e he
    rw [List.mem_singleton.1 he]
    exact ⟨hk, hx⟩
  | cons e es ih =>
    have hhead := hes e List.mem_cons_self
    have htail : ∀ e' ∈ es, P e'.1 ∧ Q e'.2 := fun e' he' => hes e' (List.mem_cons_of_mem e he')
    unfold Entries.set
    split
    · exact List.forall_mem_cons.2 ⟨⟨hhead.1, hx⟩, htail⟩
    · exact List.forall_mem_cons.2 ⟨hhead, ih htail⟩

theorem Entries.forall_mem_ofList {κ α : Type} {same : κ → κ → Bool} {P : κ → Prop} {Q : α → Prop}
    {es : List (κ × α)} (hes : ∀ e ∈ es, P e.1 ∧ Q e.2) :
    ∀ e ∈ Entries.ofList same es, P e.1 ∧ Q e.2 :=
  List.foldlRecOn (motive := fun table : List (κ × α) => ∀ e ∈ table, P e.1 ∧ Q e.2) es _
    (fun _ he => absurd he List.not_mem_nil)
    fun _ htable e he => Entries.forall_mem_set htable (hes e he).1 (hes e he).2

/-! ### Expressions -/

/-- Registers are valid in a store if they hold valid values. -/
def Registers.Valid (registers : Registers) (store : Store) : Prop :=
  ∀ r ∈ registers, r.2.Valid store

theorem Registers.Valid.mono {registers : Registers} {store store' : Store}
    (h : registers.Valid store) (hext : store.Extends store') : registers.Valid store' :=
  fun r hr => (h r hr).mono hext.length_le

namespace Expression

section

variable {store : Store} {registers : Registers} {x : Value}

theorem ensures_wrap (f : Symbol) (count : Nat) (hx : x.Valid store) :
    Ensures (wrap f count x) (·.Valid store) := by
  induction count generalizing x with
  | zero => exact .ok hx
  | succ count ih =>
    have ht : Ensures (f.applyTo [.value x]) Term.WellShaped :=
      f.ensures_applyTo (List.forall_mem_singleton.2 hx.termsWellShaped.object)
    exact ht.bind fun t ht => ih (Value.valid_term.2 ht)

theorem ensures_tableOf {es : List (Value × Value)}
    (hes : ∀ e ∈ es, e.1.Valid store ∧ e.2.Valid store) :
    Ensures (tableOf es) fun table => (Value.map table).Valid store := by
  unfold tableOf
  split
  · exact .error _
  · exact .ok (Value.valid_map.2 (Entries.forall_mem_ofList hes))

theorem ensures_readRegister (hregisters : registers.Valid store) (name : String) :
    Ensures (readRegister registers name) (·.Valid store) := by
  unfold readRegister
  split
  · next x hx =>
    obtain ⟨before, rest, hsplit, -⟩ := List.lookup_eq_some_iff.1 hx
    have hmem : (name, x) ∈ registers := by simp [hsplit]
    exact .ok (hregisters (name, x) hmem)
  · exact .error _

theorem builds_makeFloat (hstore : store.Valid) (literal : String) :
    Builds (makeFloat literal) store fun store' x => x.Valid store' := by
  unfold makeFloat
  split
  · exact .ok ⟨.newMark store, hstore.newMark, Value.valid_of_leaf rfl trivial⟩
  · exact .pure hstore (Value.valid_of_leaf rfl trivial)

theorem builds_makeChain (hstore : store.Valid) (name : Value) (count : Nat) (hx : x.Valid store) :
    Builds (makeChain name count x) store fun store' y => y.Valid store' := by
  unfold makeChain
  split
  · exact .pure hstore hx
  · refine .get_bind (.lift_bind hstore (.trivial _) fun f _ => ?_)
    exact .lift hstore (ensures_wrap f count hx)

theorem builds_makeSubstitution (hstore : store.Valid) {pairs : List (Value × Value)}
    (hpairs : ∀ p ∈ pairs, p.1.Valid store ∧ p.2.Valid store) :
    Builds (makeSubstitution pairs) store fun store' x => x.Valid store' := by
  have hs := Substitution.wellShaped_empty.ensures_addEntries hpairs
  refine .lift_bind hstore hs fun s hs => .ok ?_
  refine ⟨.newSubstitution store s, hstore.newSubstitution hs, Value.valid_substitution.2 ?_⟩
  simp

end

variable {registers : Registers}

mutual

/-- What an expression builds from valid registers is valid. -/
theorem builds_eval {store : Store} (e : Expression) (hstore : store.Valid)
    (hregisters : registers.Valid store) :
    Builds (eval registers e) store fun store' x => x.Valid store' := by
  cases e with
  | null => exact .pure hstore Value.valid_null
  | bool b => exact .pure hstore (Value.valid_bool b)
  | int i => exact .pure hstore (Value.valid_int i)
  | float l => exact builds_makeFloat hstore l
  | text s => exact .pure hstore (Value.valid_text s)
  | bytes data => exact .pure hstore (Value.valid_of_leaf rfl trivial)
  | list es =>
    exact (builds_evalItems es hstore hregisters).bind fun _ xs _ hstore hxs =>
      .pure hstore (Value.valid_list.2 hxs)
  | tuple es =>
    exact (builds_evalItems es hstore hregisters).bind fun _ xs _ hstore hxs =>
      .pure hstore (Value.valid_tuple.2 hxs)
  | map es =>
    refine (builds_evalPairs es hstore hregisters).bind fun _ pairs _ hstore hpairs => ?_
    exact .lift_bind hstore (ensures_tableOf hpairs) fun table htable => .pure hstore htable
  | var e =>
    refine (builds_eval e hstore hregisters).bind fun _ name _ hstore _ => ?_
    exact .lift_bind hstore (.trivial _) fun v _ => .pure hstore (Value.valid_ofVar v)
  | const e =>
    refine (builds_eval e hstore hregisters).bind fun _ name _ hstore _ => ?_
    exact .lift_bind hstore Term.ensures_constOfValue fun t ht =>
      .pure hstore (Value.valid_term.2 ht)
  | symbol e e' =>
    refine (builds_eval e hstore hregisters).bind fun _ name hext hstore _ => ?_
    refine (builds_eval e' hstore (hregisters.mono hext)).bind fun _ arity _ hstore _ => ?_
    exact .get_bind (.lift_bind hstore (.trivial _) fun f _ =>
      .pure hstore (Value.valid_symbol f))
  | call e es =>
    refine (builds_evalItems es hstore hregisters).bind fun _ xs hext hstore hxs => ?_
    refine (builds_eval e hstore (hregisters.mono hext)).bind fun _ name hext' hstore _ => ?_
    refine .get_bind (.lift_bind hstore (.trivial _) fun f _ => ?_)
    have hitems := Object.termWellShaped_map fun x hx => (hxs x hx).termsWellShaped
    exact .lift_bind hstore (f.ensures_applyTo hitems) fun t ht =>
      .pure hstore (Value.valid_term.2 ht)
  | application e e' =>
    refine (builds_eval e hstore hregisters).bind fun _ head hext hstore _ => ?_
    refine (builds_eval e' hstore (hregisters.mono hext)).bind fun _ args _ hstore hargs => ?_
    have hitems := Object.termWellShaped_items? hargs.termsWellShaped
    exact .lift_bind hstore (Term.ensures_ofObjects _ hitems) fun t ht =>
      .pure hstore (Value.valid_term.2 ht)
  | applyTo e es =>
    refine (builds_eval e hstore hregisters).bind fun _ head hext hstore _ => ?_
    refine (builds_evalItems es hstore (hregisters.mono hext)).bind fun _ args _ hstore hargs => ?_
    have hitems := Object.termWellShaped_map fun x hx => (hargs x hx).termsWellShaped
    exact .lift_bind hstore (Term.ensures_applyToArgs _ hitems) fun t ht =>
      .pure hstore (Value.valid_term.2 ht)
  | chain e count inner =>
    refine (builds_eval inner hstore hregisters).bind fun _ x hext hstore hx => ?_
    refine (builds_eval e hstore (hregisters.mono hext)).bind fun _ name hext' hstore _ => ?_
    exact builds_makeChain hstore name count (hx.mono hext'.length_le)
  | equation e e' =>
    refine (builds_eval e hstore hregisters).bind fun _ lhs hext hstore hlhs => ?_
    refine (builds_eval e' hstore (hregisters.mono hext)).bind fun _ rhs hext' hstore hrhs => ?_
    exact .lift_bind hstore (Equation.ensures_ofValues (hlhs.mono hext'.length_le) hrhs)
      fun equation heq => .pure hstore (Value.valid_equation.2 heq)
  | substitution es =>
    exact (builds_evalPairs es hstore hregisters).bind fun _ pairs _ hstore hpairs =>
      builds_makeSubstitution hstore hpairs
  | signature es es' =>
    refine (builds_evalItems es hstore hregisters).bind fun _ symbols hext hstore _ => ?_
    have hregisters := hregisters.mono hext
    refine (builds_evalItems es' hstore hregisters).bind fun _ constants _ hstore hcs => ?_
    have hsig := Signature.ensures_ofValues hstore (Value.valid_list.2 hcs) (x := .list symbols)
    exact .get_bind (.lift_bind hstore hsig fun sig hsig => .pure hstore hsig)
  | register name =>
    exact .lift hstore (ensures_readRegister hregisters name)

theorem builds_evalItems {store : Store} (es : List Expression) (hstore : store.Valid)
    (hregisters : registers.Valid store) :
    Builds (evalItems registers es) store fun store' xs => ∀ x ∈ xs, x.Valid store' := by
  cases es with
  | nil => exact .pure hstore fun x hx => absurd hx List.not_mem_nil
  | cons e es =>
    refine (builds_eval e hstore hregisters).bind fun _ x hext hstore hx => ?_
    have hregisters := hregisters.mono hext
    refine (builds_evalItems es hstore hregisters).bind fun _ xs hext' hstore hxs => ?_
    exact .pure hstore (List.forall_mem_cons.2 ⟨hx.mono hext'.length_le, hxs⟩)

theorem builds_evalPairs {store : Store} (es : List (Expression × Expression))
    (hstore : store.Valid) (hregisters : registers.Valid store) :
    Builds (evalPairs registers es) store fun store' pairs =>
      ∀ p ∈ pairs, p.1.Valid store' ∧ p.2.Valid store' := by
  cases es with
  | nil => exact .pure hstore fun p hp => absurd hp List.not_mem_nil
  | cons p es =>
    refine (builds_eval p.1 hstore hregisters).bind fun _ x hext hstore hx => ?_
    have hregisters := hregisters.mono hext
    refine (builds_eval p.2 hstore hregisters).bind fun _ y hext' hstore hy => ?_
    have hregisters := hregisters.mono hext'
    refine (builds_evalPairs es hstore hregisters).bind fun _ pairs hext'' hstore hpairs => ?_
    have hxy := And.intro (hx.mono (hext'.trans hext'').length_le) (hy.mono hext''.length_le)
    exact .pure hstore (List.forall_mem_cons.2 ⟨hxy, hpairs⟩)

end

end Expression

/-!
## Valid states

A state is valid if its store is and its registers hold valid values.  The first state is valid, and
a step from a valid state leads to a valid one (`State.Valid.step`), so every state that a session
reaches is valid (`State.valid_after_start`).
-/

/-! ### Committing -/

/-- Committing to a valid action keeps what was made and hands a valid value back. -/
theorem Action.Valid.commit {store : Store} {a : Action} (hstore : store.Valid)
    (h : a.Valid store) :
    (a.commit store).2.Valid ∧ (a.commit store).1.Valid (a.commit store).2 ∧
      store.substitutions.length ≤ (a.commit store).2.substitutions.length := by
  cases a with
  | yield x => exact ⟨hstore, h, Nat.le_refl _⟩
  | makeSubstitution s =>
    have hlength : (store.newSubstitution s).2.substitutions.length =
        store.substitutions.length + 1 := List.length_append
    refine ⟨hstore.newSubstitution h, Value.valid_substitution.2 ?_, ?_⟩
    · exact hlength ▸ Nat.lt_succ_self _
    · exact hlength ▸ Nat.le_succ _
  | makeContext ctx =>
    exact ⟨hstore.newContext h, Value.valid_of_leaf rfl trivial, Nat.le_refl _⟩
  | setSubstitution id s =>
    exact ⟨hstore.setSubstitution id h.2, Value.valid_null, Nat.le_of_eq List.length_set.symm⟩
  | setContext id ctx => exact ⟨hstore.setContext id h, Value.valid_null, Nat.le_refl _⟩

/-! ### Steps -/

namespace State

variable {state : State}

/-- A state is valid if its store is and its registers hold valid values. -/
structure Valid (state : State) : Prop where
  store : state.store.Valid
  registers : state.registers.Valid state.store

theorem valid_start : start.Valid where
  store := ⟨fun _ hs => absurd hs List.not_mem_nil, fun _ hctx => absurd hctx List.not_mem_nil⟩
  registers := fun _ hr => absurd hr List.not_mem_nil

/-- A step that succeeds: its arguments, the store with the objects that they made, and what the
operation answers. -/
structure Takes (state : State) (s : Step) (args : List Value) (store : Store) (o : Outcome) :
    Prop where
  built : (Expression.evalItems state.registers s.args).run state.store = .ok (args, store)
  answered : s.op.run store args = .ok o

variable {s : Step} {args : List Value} {store : Store} {o : Outcome}

theorem Takes.outcome (h : state.Takes s args store o) : state.outcome s = .ok (o, store) := by
  simp [State.outcome, h.built, h.answered, bind, Except.bind, pure, Except.pure]

theorem Takes.step (h : state.Takes s args store o) :
    state.step s = (.ok ((o.action.commit store).1, o.notes),
      ⟨(o.action.commit store).2,
        assign state.registers s.register (o.action.commit store).1⟩) := by
  rw [State.step, h.outcome]

/-- A step succeeds, or it fails and changes nothing. -/
theorem step_cases (state : State) (s : Step) :
    (∃ args store o, state.Takes s args store o) ∨
      ∃ fault, state.outcome s = .error fault ∧ state.step s = (.error fault, state) := by
  have hfail : ∀ fault, state.outcome s = .error fault →
      state.step s = (.error fault, state) := by
    intro fault h
    rw [State.step, h]
  cases hargs : (Expression.evalItems state.registers s.args).run state.store with
  | error fault =>
    have h : state.outcome s = .error fault := by
      simp [State.outcome, hargs, bind, Except.bind]
    exact .inr ⟨fault, h, hfail fault h⟩
  | ok r =>
    cases hrun : s.op.run r.2 r.1 with
    | error fault =>
      have h : state.outcome s = .error fault := by
        simp [State.outcome, hargs, hrun, bind, Except.bind]
      exact .inr ⟨fault, h, hfail fault h⟩
    | ok o => exact .inl ⟨r.1, r.2, o, hargs, hrun⟩

namespace Valid

/-- The arguments of a step extend the store and are valid there. -/
theorem built (h : state.Valid) (ht : state.Takes s args store o) :
    state.store.Extends store ∧ store.Valid ∧ ∀ x ∈ args, x.Valid store :=
  Expression.builds_evalItems s.args h.store h.registers (args, store) ht.built

/-- What is answered is sound for the edit that the operation and its arguments tell. -/
theorem sound (h : state.Valid) (ht : state.Takes s args store o) :
    o.Sound store (s.op.edit? args) :=
  have hbuilt := h.built ht
  s.op.ensures_run hbuilt.2.1 hbuilt.2.2 o ht.answered

theorem assign {registers : Registers} {x : Value} (register : Option String)
    (hregisters : registers.Valid store) (hx : x.Valid store) :
    (State.assign registers register x).Valid store := by
  cases register with
  | none => exact hregisters
  | some name =>
    have hset : ∀ r ∈ Entries.set (· == ·) name x registers, True ∧ r.2.Valid store :=
      Entries.forall_mem_set (P := fun _ => True) (Q := (·.Valid store))
        (fun r hr => ⟨trivial, hregisters r hr⟩) trivial hx
    exact fun r hr => (hset r hr).2

theorem step (h : state.Valid) (s : Step) : (state.step s).2.Valid := by
  rcases step_cases state s with ⟨args, store, o, ht⟩ | ⟨fault, -, hstep⟩
  · obtain ⟨hext, hstore, -⟩ := h.built ht
    obtain ⟨hcommit, hx, hle⟩ := (h.sound ht).1.commit hstore
    rw [ht.step]
    refine ⟨hcommit, assign s.register (fun r hr => ?_) hx⟩
    exact (h.registers r hr).mono (Nat.le_trans hext.length_le hle)
  · rw [hstep]
    exact h

theorem after (h : state.Valid) (steps : List Step) : (state.after steps).Valid := by
  induction steps generalizing state with
  | nil => exact h
  | cons s steps ih => exact ih (h.step s)

end Valid

/-- Every state that a session reaches is valid. -/
theorem valid_after_start (steps : List Step) : (start.after steps).Valid := valid_start.after steps

end State

end TermAlgebra
