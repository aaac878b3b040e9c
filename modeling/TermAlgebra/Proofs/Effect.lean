import TermAlgebra.Proofs.ValidResult
import TermAlgebra.Session

/-!
# What operations do to the store

Which object an operation may change or make is said once for each of them (`ensures_run`), after
what an action can ask for at all.
-/

namespace TermAlgebra

/-!
## Edits and sound outcomes

An edit is a change of a list of bindings, and `Operation.edit?` reads off an operation and its
arguments which edit it asks for and of which substitution: only adding and removing ask for one.
An outcome is sound if what it asks the store to do is just that edit (`Outcome.Sound`), and nothing
invalid is handed back or made.
-/

/-! ### Edits -/

/-- A change of a list of bindings. -/
inductive Edit where
  | add (v : Var) (t : Term)
  | remove (v : Var)
deriving DecidableEq

namespace Edit

/-- Adding puts a binding at the end; removing takes out the binding of a variable, if there is one,
and leaves the others in their order. -/
def apply : Edit → List (Var × Term) → List (Var × Term)
  | add v t, bs => bs ++ [(v, t)]
  | remove v, bs => bs.eraseP fun b => b.1 == v

/-- What edits make of a list of bindings, one after the other. -/
def replay (edits : List Edit) (bs : List (Var × Term)) : List (Var × Term) :=
  edits.foldl (fun bs e => e.apply bs) bs

theorem apply_add {s s' : Substitution} {v : Var} {t : Term} (h : s.add v t = .ok s') :
    s'.bindings = (add v t).apply s.bindings :=
  (Substitution.bindings_add h).2

/-- The one binding of a variable is all that there is to remove. -/
theorem apply_remove (s : Substitution) (v : Var) :
    (s.remove v).bindings = (remove v).apply s.bindings := by
  rw [Substitution.bindings_remove, apply]
  have hd := s.distinct
  generalize s.bindings = bs at hd
  induction bs with
  | nil => rfl
  | cons b bs ih =>
    rw [List.map_cons, List.nodup_cons] at hd
    by_cases hb : b.1 = v
    · have hbs : ∀ c ∈ bs, c.1 ≠ v := fun c hc hcv =>
        hd.1 (hb ▸ hcv ▸ List.mem_map_of_mem hc)
      rw [List.filter_cons_of_neg (by simpa using hb), List.eraseP_cons_of_pos (by simpa using hb)]
      exact List.filter_eq_self.2 fun c hc => by simpa using hbs c hc
    · rw [List.filter_cons_of_pos (by simpa using hb), List.eraseP_cons_of_neg (by simpa using hb),
        ih hd.2]

end Edit

/-- The edit that an operation asks for on its arguments, and the number of the substitution that is
to be edited. -/
def Operation.edit? : Operation → List Value → Option (Nat × Edit)
  | .substitution .add, [.substitution id, .term (.var v), .term t] => some (id, .add v t)
  | .substitution .remove, [.substitution id, .term (.var v)] => some (id, .remove v)
  | _, _ => none

/-! ### Sound outcomes -/

/-- An action is valid in a store if it hands back and makes nothing invalid and changes only
substitutions that were made. -/
def Action.Valid (store : Store) : Action → Prop
  | .yield x => x.Valid store
  | .makeSubstitution s => s.WellShaped
  | .makeContext ctx => ctx.Valid store
  | .setSubstitution id s => id < store.substitutions.length ∧ s.WellShaped
  | .setContext _ ctx => ctx.Valid store

/-- An action carries out an edit if it changes the substitution that is to be edited, as the edit
says, and none if there is no edit. -/
def Action.CarriesOut (store : Store) (edit : Option (Nat × Edit)) : Action → Prop
  | .setSubstitution id s =>
    ∃ e, edit = some (id, e) ∧ s.bindings = e.apply (store.substitution id).bindings
  | _ => edit = none

/-- An outcome is sound for an edit if its action is valid and carries the edit out. -/
def Outcome.Sound (store : Store) (edit : Option (Nat × Edit)) (o : Outcome) : Prop :=
  o.action.Valid store ∧ o.action.CarriesOut store edit

namespace Outcome.Sound

variable {store : Store}

theorem value {x : Value} (h : x.Valid store) : (Outcome.value x).Sound store none := ⟨h, rfl⟩

theorem term {t : Term} (h : t.WellShaped) : (Outcome.term t).Sound store none :=
  value (Value.valid_term.2 h)

theorem bool (b : Bool) : (Outcome.bool b).Sound store none := value (Value.valid_bool b)

theorem text (s : String) : (Outcome.text s).Sound store none := value (Value.valid_text s)

theorem ofVars (vs : List Var) : (Outcome.value (.ofVars vs)).Sound store none :=
  value (Value.valid_tuple.2 (List.forall_mem_map.2 fun v _ => Value.valid_ofVar v))

theorem report (r : Report String) : (Outcome.report r).Sound store none := by
  refine ⟨Value.valid_report.2 ⟨Value.valid_text _, List.forall_mem_map.2 fun d _ => ?_⟩, rfl⟩
  refine ⟨Value.valid_text _, Value.valid_text _, fun p hp => ?_⟩
  obtain ⟨q, -, rfl⟩ := Option.map_eq_some_iff.1 hp
  exact Value.valid_text q

theorem makeSubstitution {s : Substitution} {notes : List Note} (h : s.WellShaped) :
    Outcome.Sound store none ⟨.makeSubstitution s, notes⟩ :=
  ⟨h, rfl⟩

theorem setContext {id : Nat} {ctx : Context Value Value} (h : ctx.Valid store) :
    Outcome.Sound store none ⟨.setContext id ctx, []⟩ :=
  ⟨h, rfl⟩

end Outcome.Sound

/-! ### Arguments -/

section

variable {args : List Value} {P : Value → Prop}

theorem ensures_oneArg (hargs : ∀ x ∈ args, P x) :
    Ensures (oneArg args) fun x => args = [x] ∧ P x := by
  unfold oneArg
  split
  · next x => exact .ok ⟨rfl, hargs x (by simp)⟩
  · exact .error _

theorem ensures_twoArgs (hargs : ∀ x ∈ args, P x) :
    Ensures (twoArgs args) fun p => args = [p.1, p.2] ∧ P p.1 ∧ P p.2 := by
  unfold twoArgs
  split
  · next x y => exact .ok ⟨rfl, hargs x (by simp), hargs y (by simp)⟩
  · exact .error _

theorem ensures_threeArgs (hargs : ∀ x ∈ args, P x) :
    Ensures (threeArgs args) fun p => args = [p.1, p.2.1, p.2.2] ∧ P p.1 ∧ P p.2.1 ∧ P p.2.2 := by
  unfold threeArgs
  split
  · next x y z => exact .ok ⟨rfl, hargs x (by simp), hargs y (by simp), hargs z (by simp)⟩
  · exact .error _

theorem ensures_oneOrTwoArgs {default : Value} (hargs : ∀ x ∈ args, P x) (hdefault : P default) :
    Ensures (oneOrTwoArgs default args) fun p => P p.1 ∧ P p.2 := by
  unfold oneOrTwoArgs
  split
  · next x => exact .ok ⟨hargs x (by simp), hdefault⟩
  · next x y => exact .ok ⟨hargs x (by simp), hargs y (by simp)⟩
  · exact .error _

theorem ensures_argAndMore (hargs : ∀ x ∈ args, P x) :
    Ensures (argAndMore args) fun p => P p.1 ∧ ∀ x ∈ p.2, P x := by
  unfold argAndMore
  split
  · next x xs => exact .ok ⟨hargs x (by simp), fun y hy => hargs y (List.mem_cons_of_mem x hy)⟩
  · exact .error _

end

/-!
## What operations ask for

Every operation, on valid arguments in a valid store, fails or has a sound outcome
(`Operation.ensures_run`): it asks for the edit that is read off its name and its arguments, if it
is an addition or a removal, and for no change to any substitution otherwise.
-/

section

variable {store : Store} {args : List Value}

/-! ### Operations on anything, on terms and on signatures -/

theorem GeneralOperation.ensures_describe (c : FaultClass) {x : Value} (hx : x.Valid store) :
    Ensures (describe store c x) fun y => y.Valid store := by
  have hparts : ∀ (message : String) (classes : List FaultClass) (about : Value),
      about.Valid store →
        (Value.list [.text message, .list (classes.map fun d => .text d.label), about]).Valid
          store := by
    intro message classes about habout
    refine Value.valid_list.2 fun y hy => ?_
    simp only [List.mem_cons, List.not_mem_nil, or_false] at hy
    rcases hy with rfl | rfl | rfl
    · exact Value.valid_text _
    · exact Value.valid_list.2 (List.forall_mem_map.2 fun d _ => Value.valid_text _)
    · exact habout
  unfold describe
  dsimp only
  split
  · exact .bind_any fun name => .ok (hparts _ _ _ hx)
  · exact .ok (hparts _ _ _ Value.valid_null)

theorem GeneralOperation.ensures_run (op : GeneralOperation) (hstore : store.Valid)
    (hargs : ∀ x ∈ args, x.Valid store) : Ensures (op.run store args) (·.Sound store none) := by
  unfold run
  cases op with
  | identity => exact (ensures_oneArg hargs).bind fun x hx => .pure (.value hx.2)
  | display => exact .bind_any fun x => .pure (.text _)
  | literal => exact .bind_any fun x => .pure (.text _)
  | length => exact .bind_any fun x => .bind_any fun n => .pure (.value (Value.valid_int n))
  | truth => exact .bind_any fun x => .pure (.bool _)
  | items =>
    exact (ensures_oneArg hargs).bind fun x hx => (Value.ensures_items hstore hx.2).bind
      fun xs hxs => .pure (.value (Value.valid_list.2 hxs))
  | same => exact .bind_any fun p => .pure (.bool _)
  | describeFault c =>
    exact (ensures_oneArg hargs).bind fun x hx => (ensures_describe c hx.2).bind
      fun y hy => .pure (.value hy)

/-- The operations that build a term from its parts. -/
def TermOperation.builders : List TermOperation :=
  [var, const, application, applyToList, applyToArgs, applyMethod]

/-- What is built from well-shaped terms is well shaped, whatever else is among the arguments. -/
theorem TermOperation.ensures_build {op : TermOperation} (hop : op ∈ builders)
    (hargs : ∀ x ∈ args, x.TermsWellShaped) :
    Ensures (op.run store args) fun o => ∃ t, o = .term t ∧ t.WellShaped := by
  unfold run
  cases op with
  | var => exact .bind_any fun x => .bind_any fun v => .pure ⟨.var v, rfl, Term.wellShaped_var v⟩
  | const =>
    exact .bind_any fun x => Term.ensures_constOfValue.bind fun t ht => .pure ⟨t, rfl, ht⟩
  | application =>
    refine (ensures_twoArgs hargs).bind fun p hp => ?_
    have hitems := Object.termWellShaped_items? hp.2.2
    exact (Term.ensures_ofObjects _ hitems).bind fun t ht => .pure ⟨t, rfl, ht⟩
  | applyToList =>
    refine (ensures_twoArgs hargs).bind fun p hp => ?_
    have hitems := Object.termWellShaped_items? hp.2.2
    exact (Term.ensures_applyToList _ hitems).bind fun t ht => .pure ⟨t, rfl, ht⟩
  | applyToArgs =>
    refine (ensures_argAndMore hargs).bind fun p hp => ?_
    have hitems := Object.termWellShaped_map hp.2
    exact (Term.ensures_applyToArgs _ hitems).bind fun t ht => .pure ⟨t, rfl, ht⟩
  | applyMethod =>
    refine (ensures_argAndMore hargs).bind fun p hp => .bind_any fun f => ?_
    have hitems := Object.termWellShaped_map hp.2
    exact (Term.ensures_applyToArgs _ hitems).bind fun t ht => .pure ⟨t, rfl, ht⟩
  | _ => exact absurd hop (by decide)

theorem TermOperation.ensures_run (op : TermOperation) (hargs : ∀ x ∈ args, x.Valid store) :
    Ensures (op.run store args) (·.Sound store none) := by
  have hbuild (hop : op ∈ builders) : Ensures (op.run store args) (·.Sound store none) := by
    refine (ensures_build hop fun x hx => (hargs x hx).termsWellShaped).mono ?_
    rintro o ⟨t, rfl, ht⟩
    exact .term ht
  cases op with
  | var | const | application | applyToList | applyToArgs | applyMethod =>
    exact hbuild (by decide)
  | symbol => exact .bind_any fun p => .bind_any fun f => .pure (.value (Value.valid_symbol f))
  | equation =>
    exact (ensures_twoArgs hargs).bind fun p hp => (Equation.ensures_ofValues hp.2.1 hp.2.2).bind
      fun e he => .pure (.value (Value.valid_equation.2 he))
  | isConstant => exact .bind_any fun x => .bind_any fun f => .pure (.bool _)
  | isTerm => exact .bind_any fun x => .pure (.bool _)
  | same => exact .bind_any fun p => .pure (.bool _)
  | copy =>
    exact .bind_any fun x => .bind_any fun t => t.ensures_rebuild.bind fun u hu => .pure (.term hu)
  | vars => exact .bind_any fun x => .bind_any fun t => .pure (.ofVars _)
  | isGround => exact .bind_any fun x => .bind_any fun t => .pure (.bool _)
  | renderTerm => exact .bind_any fun x => .bind_any fun t => .pure (.text _)
  | renderEquation => exact .bind_any fun x => .bind_any fun s => .pure (.text _)

theorem SignatureOperation.ensures_run (op : SignatureOperation) (hstore : store.Valid)
    (hargs : ∀ x ∈ args, x.Valid store) : Ensures (op.run store args) (·.Sound store none) := by
  unfold run
  have hnone : (Value.list []).Valid store :=
    Value.valid_list.2 fun x hx => absurd hx List.not_mem_nil
  cases op with
  | ofSymbols =>
    exact (ensures_oneOrTwoArgs hargs hnone).bind fun p hp =>
      (Signature.ensures_ofValues hstore hp.2).bind fun sig hsig => .pure (.value hsig)
  | ofMap =>
    exact (ensures_oneOrTwoArgs hargs hnone).bind fun p hp =>
      (Signature.ensures_ofEntries hstore hp.2).bind fun sig hsig => .pure (.value hsig)
  | getSymbol =>
    have hfound : ∀ (sig : Signature Value) (key : Value),
        Ensures (symbolUnder sig key) fun y => y.Valid store := by
      intro sig key
      unfold symbolUnder
      split
      · next name =>
        cases sig.getSymbol name with
        | none => exact .ok Value.valid_null
        | some f => exact .ok (Value.valid_symbol f)
      · split
        · exact .error _
        · exact .ok Value.valid_null
    exact .bind_any fun p => .bind_any fun sig => (hfound sig p.2).bind
      fun y hy => .pure (.value hy)
  | symbolNames =>
    exact .bind_any fun x => .bind_any fun sig =>
      .pure (.value (Value.valid_of_leaf rfl trivial))
  | declaresConstants => exact .bind_any fun x => .bind_any fun sig => .pure (.bool _)

/-! ### Operations that check -/

namespace CheckOperation

theorem ensures_diagnosticsOf (hstore : store.Valid) {xs : List Value}
    (hxs : ∀ x ∈ xs, x.Valid store) :
    Ensures (diagnosticsOf store xs) fun ds => ∀ d ∈ ds, d.Valid store := by
  induction xs with
  | nil => exact .ok fun d hd => absurd hd List.not_mem_nil
  | cons x xs ih =>
    have hd : Ensures (diagnosticOf store x) fun d => d.Valid store :=
      (Value.ensures_four hstore (hxs x List.mem_cons_self)).bind fun p hp => .bind_any fun _ =>
        .pure ⟨hp.1, hp.2.2.1, Value.valid_toOption hp.2.2.2⟩
    refine hd.bind fun d hd => ?_
    refine (ih fun y hy => hxs y (List.mem_cons_of_mem x hy)).bind fun ds hds => .pure ?_
    intro d' hd'
    rcases List.mem_cons.1 hd' with rfl | hd'
    · exact hd
    · exact hds d' hd'

theorem ensures_addFinding (hstore : store.Valid) (hargs : ∀ x ∈ args, x.Valid store)
    (method : String) {note : Context Value Value → Value → Value → Option Value →
      Context Value Value}
    (hnote : ∀ (ctx : Context Value Value) (check message : Value) (path : Option Value),
      ctx.Valid store → check.Valid store → message.Valid store →
        (∀ p ∈ path, p.Valid store) → (note ctx check message path).Valid store) :
    Ensures (addFinding store method note args) (·.Sound store none) := by
  have hfound : ∀ ctx check message path : Value, check.Valid store → message.Valid store →
      path.Valid store → Ensures (do
        let id ← ctx.contextId method
        return (⟨.setContext id (note (store.context id) check message path.toOption), []⟩ :
          Outcome)) (·.Sound store none) :=
    fun _ check message path hcheck hmessage hpath => .bind_any fun id => .pure
      (.setContext (hnote _ check message _ (hstore.context id) hcheck hmessage
        (Value.valid_toOption hpath)))
  unfold addFinding
  dsimp only
  split
  · next ctx check message =>
    exact hfound ctx check message .null (hargs check (by simp)) (hargs message (by simp))
      Value.valid_null
  · next ctx check message path =>
    exact hfound ctx check message path (hargs check (by simp)) (hargs message (by simp))
      (hargs path (by simp))
  · exact .error _

theorem ensures_addName (hstore : store.Valid) (hargs : ∀ x ∈ args, x.Valid store)
    (method : String) {observe : Context Value Value → Value → Context Value Value}
    (hobserve : ∀ (ctx : Context Value Value) (name : Value),
      ctx.Valid store → name.Valid store → (observe ctx name).Valid store) :
    Ensures (addName store method observe args) (·.Sound store none) := by
  refine (ensures_twoArgs hargs).bind fun p hp => .bind_any fun id => ?_
  split
  · exact .error _
  · exact .pure (.setContext (hobserve _ _ (hstore.context id) hp.2.2))

theorem ensures_run (op : CheckOperation) (hstore : store.Valid)
    (hargs : ∀ x ∈ args, x.Valid store) : Ensures (op.run store args) (·.Sound store none) := by
  unfold run
  cases op with
  | checkTerm => exact .bind_any fun p => .bind_any fun r => .pure (.report r)
  | checkSubstitution => exact .bind_any fun p => .bind_any fun r => .pure (.report r)
  | report =>
    exact (ensures_twoArgs hargs).bind fun p hp => (Value.ensures_items hstore hp.2.2).bind
      fun xs hxs => (ensures_diagnosticsOf hstore hxs).bind fun ds hds =>
        .pure (.value (Value.valid_report.2 ⟨hp.2.1, hds⟩))
  | context =>
    exact (ensures_oneArg hargs).bind fun x hx => .pure ⟨Context.Valid.start hx.2, rfl⟩
  | error =>
    exact ensures_addFinding hstore hargs _ fun ctx check message path hctx hcheck hmessage hpath =>
      hctx.note ⟨hcheck, hmessage, hpath⟩
  | warning =>
    exact ensures_addFinding hstore hargs _ fun ctx check message path hctx hcheck hmessage hpath =>
      hctx.note ⟨hcheck, hmessage, hpath⟩
  | observeConstant =>
    exact ensures_addName hstore hargs _ fun ctx name hctx hname => hctx.observeConstant hname
  | observeNullary =>
    exact ensures_addName hstore hargs _ fun ctx name hctx hname => hctx.observeNullary hname
  | clashingNames =>
    have hnames : ∀ id, Ensures (store.context id).clashingValues fun xs =>
        ∀ x ∈ xs, x.Valid store := by
      intro id xs hxs x hx
      exact (hstore.context id).clashes x ((Value.perm_of_inOrder hxs).subset hx)
    exact .bind_any fun x => .bind_any fun id => (hnames id).bind fun xs hxs =>
      .pure (.value (Value.valid_list.2 hxs))

end CheckOperation

/-! ### Operations on substitutions -/

namespace SubstitutionOperation

theorem ensures_composition
    (compose : Substitution → Substitution → Except Fault (Substitution × List Substitution.Trace))
    (x y : Value) : Ensures (composition store compose x y) (·.Sound store none) :=
  .bind_any fun _ => .bind_any fun _ => .bind_any fun p =>
    p.1.ensures_rebuild.bind fun _ hs => .pure (.makeSubstitution hs)

theorem ensures_copied (s : Substitution) : Ensures (copied s) (·.Sound store none) :=
  s.ensures_rebuild.bind fun _ hs => .pure (.makeSubstitution hs)

/-- Adding asks for the addition that its arguments tell. -/
theorem ensures_run_add (hstore : store.Valid) (hargs : ∀ x ∈ args, x.Valid store) :
    Ensures (run store add args) (·.Sound store (Operation.edit? (.substitution add) args)) := by
  refine (ensures_threeArgs hargs).bind fun ⟨x, v, t⟩ ⟨hp, hx, _, ht⟩ => ?_
  refine (Value.ensures_substitutionId "add" hx).bind fun id ⟨hid, hlt⟩ => ?_
  refine (Substitution.ensures_addValue _ v ht).bind fun s' hs' => .pure ?_
  obtain ⟨w, u, hw, hu, hshape, hadd⟩ := hs'
  dsimp only at hp hid hw hu
  subst hid hw hu
  rw [hp]
  exact ⟨⟨hlt, (hstore.substitution id).add hshape hadd⟩, .add w u, rfl, Edit.apply_add hadd⟩

/-- Removing asks for the removal that its arguments tell. -/
theorem ensures_run_remove (hstore : store.Valid) (hargs : ∀ x ∈ args, x.Valid store) :
    Ensures (run store remove args)
      (·.Sound store (Operation.edit? (.substitution remove) args)) := by
  refine (ensures_twoArgs hargs).bind fun ⟨x, v⟩ ⟨hp, hx, _⟩ => ?_
  refine (Value.ensures_substitutionId "remove" hx).bind fun id ⟨hid, hlt⟩ => ?_
  refine (Value.ensures_expectVar v).bind fun w hw => .pure ?_
  dsimp only at hp hid hw
  subst hid hw
  rw [hp]
  exact ⟨⟨hlt, (hstore.substitution id).remove w⟩, .remove w, rfl, Edit.apply_remove _ w⟩

theorem ensures_run (op : SubstitutionOperation) (hstore : store.Valid)
    (hargs : ∀ x ∈ args, x.Valid store) :
    Ensures (op.run store args) (·.Sound store (Operation.edit? (.substitution op) args)) := by
  cases op with
  | add => exact ensures_run_add hstore hargs
  | remove => exact ensures_run_remove hstore hargs
  | empty => exact .pure (.makeSubstitution Substitution.wellShaped_empty)
  | ofPairs =>
    exact (ensures_oneArg hargs).bind fun x hx => (Substitution.ensures_ofValue hstore hx.2).bind
      fun s hs => .pure (.makeSubstitution hs)
  | ofPairsAnd =>
    exact (ensures_oneOrTwoArgs hargs Value.valid_null).bind fun p hp =>
      (Value.ensures_items hstore hp.1).bind fun xs hxs =>
        (Substitution.ensures_ofPairsAnd hxs hp.2).bind fun s hs => .pure (.makeSubstitution hs)
  | copy => exact .bind_any fun x => .bind_any fun s => ensures_copied s
  | copyMethod => exact .bind_any fun x => .bind_any fun id => ensures_copied _
  | compose => exact .bind_any fun p => ensures_composition _ _ _
  | composeMethod => exact .bind_any fun p => .bind_any fun id => ensures_composition _ _ _
  | composeKeeping => exact .bind_any fun p => ensures_composition _ _ _
  | contains => exact .bind_any fun p => .bind_any fun id => .bind_any fun v => .pure (.bool _)
  | member => exact .bind_any fun p => .bind_any fun s => .bind_any fun v => .pure (.bool _)
  | lookup =>
    refine .bind_any fun p => .bind_any fun id => .bind_any fun v => .pure (.value ?_)
    cases hlookup : (store.substitution id).lookup v with
    | none => exact Value.valid_null
    | some t => exact Value.valid_term.2 ((hstore.substitution id).lookup hlookup)
  | apply =>
    exact .bind_any fun p => .bind_any fun id => .bind_any fun t =>
      (Term.ensures_rebuild _).bind fun u hu => .pure (.term hu)
  | applyEquation =>
    exact .bind_any fun p => .bind_any fun id => .bind_any fun e =>
      (Equation.ensures_rebuild _).bind fun e' he' => .pure (.value (Value.valid_equation.2 he'))
  | equivalent => exact .bind_any fun p => .bind_any fun id => .bind_any fun s => .pure (.bool _)
  | bindings =>
    refine .bind_any fun x => .bind_any fun id => .pure (.value (Value.valid_tuple.2 ?_))
    exact List.forall_mem_map.2 fun b hb => Value.valid_ofBinding
      (Substitution.wellShaped_iff.1 (hstore.substitution id) b hb)
  | domain => exact .bind_any fun x => .bind_any fun id => .pure (.ofVars _)
  | rangeVariables => exact .bind_any fun x => .bind_any fun id => .pure (.ofVars _)
  | isIdempotent => exact .bind_any fun x => .bind_any fun id => .pure (.bool _)
  | withoutTrivial => exact .bind_any fun x => .bind_any fun id => ensures_copied _
  | render => exact .bind_any fun x => .bind_any fun s => .pure (.text _)

end SubstitutionOperation

/-- Every operation carries out the edit that is read off it, and hands back and makes nothing
invalid. -/
theorem Operation.ensures_run (op : Operation) (hstore : store.Valid)
    (hargs : ∀ x ∈ args, x.Valid store) :
    Ensures (op.run store args) (·.Sound store (op.edit? args)) := by
  cases op with
  | general op => exact op.ensures_run hstore hargs
  | term op => exact op.ensures_run hargs
  | substitution op => exact op.ensures_run hstore hargs
  | signature op => exact op.ensures_run hstore hargs
  | check op => exact op.ensures_run hstore hargs

end

end TermAlgebra
