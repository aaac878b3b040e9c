import TermAlgebra.Proofs.SubstitutionReport
import TermAlgebra.Proofs.TextValue
import TermAlgebra.Proofs.ValidState

/-!
# Names used both ways

A name is used both ways if it stands somewhere as a constant and somewhere as a symbol without
arguments.  The warnings about clashes name these and no others, each once and in the order of their
code points, whether the two uses are in one term or in two bound terms
(`clashes_are_names_used_both_ways`).

A context that is told of names keeps them in two sets, and lists what is in both.  So what it lists
depends neither on the order in which it was told nor on how often.
-/

namespace TermAlgebra

/-! ## Observations -/

/-- What a context can be told of a name: that it was used as a constant, or as a symbol without
arguments. -/
inductive Observation where
  | constant (name : String)
  | nullary (name : String)
deriving DecidableEq

namespace Observation

/-- The name of a constant. -/
def constant? : Observation → Option String
  | constant name => some name
  | nullary _ => none

/-- The name of a symbol without arguments. -/
def nullary? : Observation → Option String
  | constant _ => none
  | nullary name => some name

/-- The step that tells the context in a register. -/
def step (register : String) : Observation → Step
  | constant name => ⟨.check .observeConstant, [.register register, .text name], none⟩
  | nullary name => ⟨.check .observeNullary, [.register register, .text name], none⟩

variable {os : List Observation} {name : String}

theorem mem_filterMap_constant? : name ∈ os.filterMap constant? ↔ constant name ∈ os := by
  have h : ∀ o : Observation, o.constant? = some name ↔ o = constant name := fun o => by
    cases o <;> simp [constant?]
  simp [h]

theorem mem_filterMap_nullary? : name ∈ os.filterMap nullary? ↔ nullary name ∈ os := by
  have h : ∀ o : Observation, o.nullary? = some name ↔ o = nullary name := fun o => by
    cases o <;> simp [nullary?]
  simp [h]

/-- A context that was told, and has no other findings. -/
def noted (os : List Observation) : Context Unit String :=
  (Context.start ()).adding [] (os.filterMap constant?) (os.filterMap nullary?)

theorem noted_append_constant (os : List Observation) (name : String) :
    noted (os ++ [constant name]) = (noted os).observeConstant name := by
  rw [noted, List.filterMap_append, List.filterMap_append]
  exact (Context.adding_adding _ [] [] _ [name] _ []).symm

theorem noted_append_nullary (os : List Observation) (name : String) :
    noted (os ++ [nullary name]) = (noted os).observeNullary name := by
  rw [noted, List.filterMap_append, List.filterMap_append]
  exact (Context.adding_adding _ [] [] _ [] _ [name]).symm

/-- What is listed was told both ways. -/
theorem mem_clashingNames_noted :
    name ∈ (noted os).clashingNames ↔ constant name ∈ os ∧ nullary name ∈ os := by
  rw [← mem_filterMap_constant?, ← mem_filterMap_nullary?]
  exact mem_clashNames

theorem pairwise_clashingNames_noted (os : List Observation) :
    (noted os).clashingNames.Pairwise (· < ·) :=
  pairwise_lt_clashNames _ _

theorem clashingNames_noted_congr {os' : List Observation} (h : ∀ o, o ∈ os ↔ o ∈ os') :
    (noted os).clashingNames = (noted os').clashingNames := by
  refine clashNames_congr (fun n => ?_) fun n => ?_
  · rw [mem_filterMap_constant?, mem_filterMap_constant?, h]
  · rw [mem_filterMap_nullary?, mem_filterMap_nullary?, h]

end Observation

/-! ## Contexts that are told of texts -/

namespace Context

variable {σ τ : Type}

/-- Contexts agree on names if one has observed the names that the other has, as texts. -/
structure AgreesOnNames (ctx : Context σ Value) (ctx' : Context τ String) : Prop where
  constants : ctx.constants = ctx'.constants.map .text
  nullary : ctx.nullary = ctx'.nullary.map .text

variable {ctx : Context σ Value} {ctx' : Context τ String}

namespace AgreesOnNames

theorem observeConstant (h : ctx.AgreesOnNames ctx') (name : String) :
    (ctx.observeConstant (.text name)).AgreesOnNames (ctx'.observeConstant name) where
  constants := (congrArg (List.insert _) h.constants).trans (Value.insert_map_text _ name)
  nullary := h.nullary

theorem observeNullary (h : ctx.AgreesOnNames ctx') (name : String) :
    (ctx.observeNullary (.text name)).AgreesOnNames (ctx'.observeNullary name) where
  constants := h.constants
  nullary := (congrArg (List.insert _) h.nullary).trans (Value.insert_map_text _ name)

theorem clashes (h : ctx.AgreesOnNames ctx') : ctx.clashes = ctx'.clashes.map .text := by
  have hfilter : ∀ cs ns : List String, (cs.map Value.text).filter (ns.map Value.text).contains =
      (cs.filter ns.contains).map .text := by
    intro cs ns
    rw [List.filter_map]
    exact congrArg (List.map _) (List.filter_congr fun c _ => Value.contains_map_text ns c)
  rw [Context.clashes, Context.clashes, h.constants, h.nullary, List.length_map, List.length_map,
    hfilter, hfilter]
  split <;> rfl

/-- Values that are texts are listed as the names are. -/
theorem clashingValues (h : ctx.AgreesOnNames ctx')
    (hsorted : ctx'.clashingNames.Pairwise (· ≤ ·)) :
    ctx.clashingValues = .ok (ctx'.clashingNames.map .text) := by
  rw [Context.clashingValues, h.clashes]
  exact Value.inOrder_map_text (List.mergeSort_perm _ _) hsorted

end AgreesOnNames

end Context

/-! ## Sessions -/

namespace Store

theorem context_setContext_self (store : Store) (ctx : Context Value Value) {id : Nat}
    (h : id < store.contexts.length) : (store.setContext id ctx).context id = ctx := by
  simp [context, setContext, h]

end Store

namespace State

/-- A register holds a context that was told of names, in this order, and of nothing else. -/
structure Told (state : State) (register : String) (id : Nat) (os : List Observation) : Prop where
  held : state.registers.lookup register = some (.context id)
  made : id < state.store.contexts.length
  agrees : (state.store.context id).AgreesOnNames (Observation.noted os)

/-- What the context in a register answers when it is asked for clashes after it was told. -/
def clashesAfter (state : State) (register : String) (os : List Observation) : Answer :=
  ((state.after (os.map (Observation.step register))).step
    ⟨.check .clashingNames, [.register register], none⟩).1

variable {state : State} {register : String} {id : Nat} {os : List Observation}

namespace Told

theorem evalItems_asked (h : state.Told register id os) :
    (Expression.evalItems state.registers [.register register]).run state.store =
      .ok ([.context id], state.store) := by
  have hread : Expression.readRegister state.registers register = .ok (.context id) := by
    rw [Expression.readRegister, h.held]
  simp only [Expression.evalItems, Expression.eval, hread]
  rfl

theorem evalItems_told (h : state.Told register id os) (name : String) :
    (Expression.evalItems state.registers [.register register, .text name]).run state.store =
      .ok ([.context id, .text name], state.store) := by
  have hread : Expression.readRegister state.registers register = .ok (.context id) := by
    rw [Expression.readRegister, h.held]
  simp only [Expression.evalItems, Expression.eval, hread]
  rfl

/-- One step tells one name more. -/
theorem step (h : state.Told register id os) (o : Observation) :
    (state.step (o.step register)).2.Told register id (os ++ [o]) := by
  have hset : ∀ ctx : Context Value Value, ctx.AgreesOnNames (Observation.noted (os ++ [o])) →
      Told ⟨state.store.setContext id ctx, state.registers⟩ register id (os ++ [o]) := by
    intro ctx hctx
    refine ⟨h.held, ?_, ?_⟩
    · rw [Store.setContext, List.length_set]
      exact h.made
    · rwa [Store.context_setContext_self state.store ctx h.made]
  cases o with
  | constant name =>
    have ht : state.Takes ((Observation.constant name).step register) [.context id, .text name]
        state.store ⟨.setContext id ((state.store.context id).observeConstant (.text name)), []⟩ :=
      ⟨h.evalItems_told name, rfl⟩
    rw [ht.step]
    refine hset _ ?_
    rw [Observation.noted_append_constant]
    exact h.agrees.observeConstant name
  | nullary name =>
    have ht : state.Takes ((Observation.nullary name).step register) [.context id, .text name]
        state.store ⟨.setContext id ((state.store.context id).observeNullary (.text name)), []⟩ :=
      ⟨h.evalItems_told name, rfl⟩
    rw [ht.step]
    refine hset _ ?_
    rw [Observation.noted_append_nullary]
    exact h.agrees.observeNullary name

/-- A session of such steps tells one name after the other. -/
theorem after (h : state.Told register id os) (os' : List Observation) :
    (state.after (os'.map (Observation.step register))).Told register id (os ++ os') := by
  induction os' generalizing state os with
  | nil =>
    rw [List.append_nil]
    exact h
  | cons o os' ih =>
    rw [List.append_cons]
    exact ih (h.step o)

theorem answer (h : state.Told register id os) :
    (state.step ⟨.check .clashingNames, [.register register], none⟩).1 =
      .ok (.list ((Observation.noted os).clashingNames.map .text), []) := by
  have hsorted : (Observation.noted os).clashingNames.Pairwise (· ≤ ·) := pairwise_clashNames _ _
  have hanswered : CheckOperation.clashingNames.run state.store [.context id] =
      .ok (.value (.list ((Observation.noted os).clashingNames.map .text))) := by
    have hrun : CheckOperation.clashingNames.run state.store [.context id] =
        (state.store.context id).clashingValues >>= fun names => pure (.value (.list names)) := rfl
    rw [hrun, h.agrees.clashingValues hsorted]
    rfl
  have ht : state.Takes ⟨.check .clashingNames, [.register register], none⟩ [.context id]
      state.store _ := ⟨h.evalItems_asked, hanswered⟩
  rw [ht.step]
  rfl

end Told

/-- A context that was told of nothing yet lists, after it was told, the names that it was told of
both ways. -/
theorem clashesAfter_eq (hregister : state.registers.lookup register = some (.context id))
    (hmade : id < state.store.contexts.length)
    (hconstants : (state.store.context id).constants = [])
    (hnullary : (state.store.context id).nullary = []) (os : List Observation) :
    state.clashesAfter register os =
      .ok (.list ((Observation.noted os).clashingNames.map .text), []) := by
  have htold : state.Told register id [] := ⟨hregister, hmade, hconstants, hnullary⟩
  exact (htold.after os).answer

end State

/-! ## Reports -/

namespace Substitution

variable {α : Type} [Declarable α] {s : Substitution}

/-- Of the warnings about a substitution those about clashes name what all bound terms together use
both ways. -/
theorem filter_clash_warnings (s : Substitution) (sig : Signature α) :
    ((checkSubstitution s sig).warnings.filter fun d => d.check == "symbol_constant_clash") =
      (clashNames (s.bindings.flatMap fun b => b.2.constants)
        (s.bindings.flatMap fun b => b.2.nullary)).map clashWarning := by
  have htrivial : (((s.bindings.filter isTrivial).map fun b => trivialWarning b.1).filter
      fun d => d.check == "symbol_constant_clash") = [] :=
    List.filter_eq_nil_iff.2 (List.forall_mem_map.2 fun b _ => by simp [trivialWarning])
  have hclash : ∀ names : List String,
      ((names.map clashWarning).filter fun d => d.check == "symbol_constant_clash") =
        names.map clashWarning := fun names =>
    List.filter_eq_self.2 (List.forall_mem_map.2 fun n _ => by simp [clashWarning])
  have hoverlap : (s.overlapWarnings.filter fun d => d.check == "symbol_constant_clash") = [] := by
    rw [overlapWarnings]
    split <;> simp [overlapWarning]
  rw [warnings_checkSubstitution, List.filter_append, List.filter_append, htrivial, hclash,
    hoverlap, List.nil_append, List.append_nil]

/-- A symbol that is applied to all bound terms adds no name of its own, for it takes arguments. -/
theorem clashNames_of_apply_terms {f : Symbol} {t : Term} (hs : s.bindings ≠ [])
    (ht : f.apply s.terms = .ok t) :
    clashNames t.constants t.nullary =
      clashNames (s.bindings.flatMap fun b => b.2.constants)
        (s.bindings.flatMap fun b => b.2.nullary) := by
  obtain ⟨harity, rfl⟩ := Symbol.apply_eq_ok_iff.1 ht
  have hconstant : ¬ f.isConstant = true := by
    rw [Symbol.isConstant, beq_iff_eq, ← harity, terms, List.length_map, List.length_eq_zero_iff]
    exact hs
  rw [Term.constants_app, Term.nullary_app, if_neg hconstant, List.nil_append, terms,
    List.flatMap_map, List.flatMap_map]

end Substitution

/-- Which names a check warns about, of a term, of a substitution and in a context.  For a
substitution they are those of its bound terms put together under one symbol.  In a context they
are those told both ways since it was made: what was told counts, not its order nor how often. -/
theorem clashes_are_names_used_both_ways {α : Type} [Declarable α] (sig : Signature α) :
    (∀ t : Term, ∃ names : List String, names.Pairwise (· < ·) ∧
      (∀ n, n ∈ names ↔ (∃ p, t.at? p = some (.const n)) ∧
        ∃ p as, t.at? p = some (.app ⟨n, 0⟩ as)) ∧
      (checkTerm t sig).warnings = names.map clashWarning ∧
      (checkTerm t sig).diagnostics = (checkTerm t sig).errors ++ names.map clashWarning) ∧
    (∀ s : Substitution, ∃ names : List String, names.Pairwise (· < ·) ∧
      (∀ n, n ∈ names ↔ (∃ b ∈ s.bindings, ∃ p, b.2.at? p = some (.const n)) ∧
        ∃ b ∈ s.bindings, ∃ p as, b.2.at? p = some (.app ⟨n, 0⟩ as)) ∧
      ((checkSubstitution s sig).warnings.filter fun d => d.check == "symbol_constant_clash") =
        names.map clashWarning ∧
      ∀ (f : Symbol) (t : Term), s.bindings ≠ [] → f.apply s.terms = .ok t →
        (checkTerm t sig).warnings = names.map clashWarning) ∧
    ∀ (state : State) (register : String) (id : Nat),
      state.registers.lookup register = some (.context id) → id < state.store.contexts.length →
      (state.store.context id).constants = [] → (state.store.context id).nullary = [] →
      ∀ os : List Observation,
        (∃ names : List String, names.Pairwise (· < ·) ∧
          (∀ n, n ∈ names ↔ .constant n ∈ os ∧ .nullary n ∈ os) ∧
          state.clashesAfter register os = .ok (.list (names.map .text), [])) ∧
        ∀ os', (∀ o, o ∈ os' ↔ o ∈ os) →
          state.clashesAfter register os' = state.clashesAfter register os := by
  refine ⟨fun t => ?_, fun s => ?_, ?_⟩
  · refine ⟨clashNames t.constants t.nullary, pairwise_lt_clashNames _ _, fun n => ?_,
      warnings_checkTerm t sig, ?_⟩
    · rw [mem_clashNames, Term.mem_constants, Term.mem_nullary]
    · rw [errors_checkTerm, checkTerm_eq]
  · refine ⟨clashNames (s.bindings.flatMap fun b => b.2.constants)
      (s.bindings.flatMap fun b => b.2.nullary), pairwise_lt_clashNames _ _, fun n => ?_,
      s.filter_clash_warnings sig, fun f t hs ht => ?_⟩
    · rw [mem_clashNames, List.mem_flatMap, List.mem_flatMap]
      simp only [Term.mem_constants, Term.mem_nullary]
    · rw [warnings_checkTerm, Substitution.clashNames_of_apply_terms hs ht]
  · intro state register id hregister hmade hconstants hnullary os
    have hanswer := State.clashesAfter_eq hregister hmade hconstants hnullary
    refine ⟨⟨_, Observation.pairwise_clashingNames_noted os,
      fun n => Observation.mem_clashingNames_noted, hanswer os⟩, fun os' hos => ?_⟩
    rw [hanswer, hanswer, Observation.clashingNames_noted_congr hos]

/-- `{x -> g(b), y -> h(b(), a()), z -> a}` uses two names both ways, neither of them in one term.
A context that was told of `b` both ways, and of one use of it twice, lists it once; `a` was told
one way only. -/
theorem clashes_are_names_used_both_ways_apart :
    let s : Substitution := ⟨[(⟨"x"⟩, .app ⟨"g", 1⟩ [.const "b"]),
      (⟨"y"⟩, .app ⟨"h", 2⟩ [.app ⟨"b", 0⟩ [], .app ⟨"a", 0⟩ []]), (⟨"z"⟩, .const "a")], by decide⟩
    let t : Term := .app ⟨"k", 3⟩ s.terms
    let sig : Signature String := ⟨[], []⟩
    let state := State.start.after [⟨.check .context, [.null], some "c"⟩]
    (s.bindings ≠ [] ∧ (⟨"k", 3⟩ : Symbol).apply s.terms = .ok t ∧
      (checkTerm t sig).warnings = ["a", "b"].map clashWarning ∧
      ((checkSubstitution s sig).warnings.filter fun d => d.check == "symbol_constant_clash") =
        ["a", "b"].map clashWarning) ∧
    state.clashesAfter "c" [.nullary "b", .constant "a", .constant "b", .nullary "b"] =
      .ok (.list [.text "b"], []) := by
  intro s t sig state
  obtain ⟨-, hsubstitution, hcontext⟩ := clashes_are_names_used_both_ways sig
  obtain ⟨names, hsorted, hmem, hwarnings, hterm⟩ := hsubstitution s
  have hs : s.bindings ≠ [] := by decide
  have ht : (⟨"k", 3⟩ : Symbol).apply s.terms = .ok t := rfl
  have hnames : names = ["a", "b"] := by
    refine hsorted.eq_of_mem_iff (by decide) fun n => ?_
    have hconstant : (∃ b ∈ s.bindings, n ∈ b.2.constants) ↔ n = "b" ∨ n = "a" := by simp [s]
    have hnullary : (∃ b ∈ s.bindings, n ∈ b.2.nullary) ↔ n = "b" ∨ n = "a" := by
      simp [s, Symbol.isConstant]
    rw [hmem]
    simp only [← Term.mem_constants, ← Term.mem_nullary]
    rw [hconstant, hnullary, and_self, or_comm]
    simp
  refine ⟨⟨hs, ht, hnames ▸ hterm _ t hs ht, hnames ▸ hwarnings⟩, ?_⟩
  obtain ⟨⟨told, htold, hboth, hanswer⟩, -⟩ := hcontext state "c" 0 rfl (by decide) rfl rfl
    [.nullary "b", .constant "a", .constant "b", .nullary "b"]
  have hb : told = ["b"] := htold.eq_of_mem_iff (by decide) fun n => by
    have hconstant : n = "b" → n = "a" ∨ n = "b" := Or.inr
    simpa [hboth] using hconstant
  rw [hanswer, hb]
  rfl

end TermAlgebra
