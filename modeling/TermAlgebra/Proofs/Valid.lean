import TermAlgebra.Proofs.Lookup
import TermAlgebra.Proofs.Postcondition
import TermAlgebra.Value.Equality

/-!
# Valid values

A value is valid in a store when every term in it is well shaped and every substitution that it
refers to was made (`Value.Valid`).  Both are said of the leaves of a value, the parts of it that
have no parts themselves.  A store is valid when everything in it is.

More objects in a store never make a value invalid (`Value.Valid.mono`), so what was valid when it
was put into a register stays so.
-/

namespace TermAlgebra

namespace Value

/-! ## Leaves -/

mutual

/-- The parts of a value that have no parts themselves. -/
def leaves : Value → List Value
  | list xs => leavesItems xs
  | tuple xs => leavesItems xs
  | map es => leavesEntries es
  | signature ⟨_, cs⟩ => leavesItems cs
  | report ⟨s, ds⟩ => leaves s ++ leavesDiagnostics ds
  | x => [x]

/-- The leaves of several values. -/
def leavesItems : List Value → List Value
  | [] => []
  | x :: xs => leaves x ++ leavesItems xs

/-- The leaves of the keys and values of a map. -/
def leavesEntries : List (Value × Value) → List Value
  | [] => []
  | (k, x) :: es => leaves k ++ leaves x ++ leavesEntries es

/-- The leaves of the parts of several diagnostics. -/
def leavesDiagnostics : List (Diagnostic Value) → List Value
  | [] => []
  | ⟨c, _, m, none⟩ :: ds => leaves c ++ leaves m ++ leavesDiagnostics ds
  | ⟨c, _, m, some p⟩ :: ds => leaves c ++ leaves m ++ leaves p ++ leavesDiagnostics ds

end

theorem leavesItems_eq (xs : List Value) : leavesItems xs = xs.flatMap leaves := by
  induction xs with
  | nil => rfl
  | cons x xs ih =>
    rw [List.flatMap_cons, ← ih]
    rfl

theorem leavesEntries_eq (es : List (Value × Value)) :
    leavesEntries es = es.flatMap fun e => e.1.leaves ++ e.2.leaves := by
  induction es with
  | nil => rfl
  | cons e es ih =>
    rw [List.flatMap_cons, ← ih]
    rfl

theorem leavesDiagnostics_eq (ds : List (Diagnostic Value)) :
    leavesDiagnostics ds =
      ds.flatMap fun d => d.check.leaves ++ d.message.leaves ++ d.path.toList.flatMap leaves := by
  induction ds with
  | nil => rfl
  | cons d ds ih =>
    obtain ⟨c, s, m, p⟩ := d
    rw [List.flatMap_cons, ← ih]
    cases p with
    | none =>
      rw [Option.toList_none, List.flatMap_nil, List.append_nil]
      rfl
    | some p =>
      rw [Option.toList_some, List.flatMap_singleton]
      rfl

theorem leaves_list (xs : List Value) : (list xs).leaves = xs.flatMap leaves := leavesItems_eq xs

theorem leaves_tuple (xs : List Value) : (tuple xs).leaves = xs.flatMap leaves :=
  leavesItems_eq xs

theorem leaves_map (es : List (Value × Value)) :
    (map es).leaves = es.flatMap fun e => e.1.leaves ++ e.2.leaves :=
  leavesEntries_eq es

theorem leaves_signature (sig : Signature Value) :
    (signature sig).leaves = sig.constants.flatMap leaves :=
  leavesItems_eq sig.constants

theorem leaves_report (r : Report Value) :
    (report r).leaves = r.subject.leaves ++ r.diagnostics.flatMap fun d =>
      d.check.leaves ++ d.message.leaves ++ d.path.toList.flatMap leaves :=
  congrArg (r.subject.leaves ++ ·) (leavesDiagnostics_eq r.diagnostics)

/-! ## Validity -/

/-- A leaf is valid if it is no reference to a substitution that was not made and no misshapen
term. -/
def LeafValid (store : Store) : Value → Prop
  | term t => t.WellShaped
  | equation e => e.WellShaped
  | substitution id => id < store.substitutions.length
  | _ => True

/-- A value is valid in a store if all its leaves are. -/
def Valid (store : Store) (x : Value) : Prop := ∀ y ∈ x.leaves, y.LeafValid store

variable {store store' : Store}

theorem Valid.mono {x : Value} (h : x.Valid store)
    (hle : store.substitutions.length ≤ store'.substitutions.length) : x.Valid store' := by
  intro y hy
  have hleaf := h y hy
  cases y with
  | substitution id => exact Nat.lt_of_lt_of_le hleaf hle
  | _ => exact hleaf

/-- A leaf is its only part. -/
theorem valid_iff_of_leaf {x : Value} (hleaves : x.leaves = [x]) :
    x.Valid store ↔ x.LeafValid store := by
  rw [Valid, hleaves, List.forall_mem_singleton]

/-- Plain data and contexts are valid everywhere. -/
theorem valid_of_leaf {x : Value} (hleaves : x.leaves = [x]) (h : x.LeafValid store) :
    x.Valid store :=
  (valid_iff_of_leaf hleaves).2 h

theorem valid_null : null.Valid store := valid_of_leaf rfl trivial

theorem valid_bool (b : Bool) : (bool b).Valid store := valid_of_leaf rfl trivial

theorem valid_int (i : Int) : (int i).Valid store := valid_of_leaf rfl trivial

theorem valid_text (s : String) : (text s).Valid store := valid_of_leaf rfl trivial

theorem valid_symbol (f : Symbol) : (symbol f).Valid store := valid_of_leaf rfl trivial

theorem valid_term {t : Term} : (term t).Valid store ↔ t.WellShaped := valid_iff_of_leaf rfl

theorem valid_equation {e : Equation} : (equation e).Valid store ↔ e.WellShaped :=
  valid_iff_of_leaf rfl

theorem valid_substitution {id : Nat} :
    (substitution id).Valid store ↔ id < store.substitutions.length :=
  valid_iff_of_leaf rfl

theorem valid_ofVar (v : Var) : (ofVar v).Valid store := valid_term.2 (Term.wellShaped_var v)

theorem valid_list {xs : List Value} : (list xs).Valid store ↔ ∀ x ∈ xs, x.Valid store := by
  rw [Valid, leaves_list, List.forall_mem_flatMap]
  rfl

theorem valid_tuple {xs : List Value} : (tuple xs).Valid store ↔ ∀ x ∈ xs, x.Valid store := by
  rw [Valid, leaves_tuple, List.forall_mem_flatMap]
  rfl

theorem valid_ofBinding {b : Var × Term} (h : b.2.WellShaped) : (ofBinding b).Valid store := by
  refine valid_tuple.2 fun y hy => ?_
  rcases List.mem_cons.1 hy with rfl | hy
  · exact valid_ofVar b.1
  · rw [List.mem_singleton.1 hy]
    exact valid_term.2 h

theorem valid_map {es : List (Value × Value)} :
    (map es).Valid store ↔ ∀ e ∈ es, e.1.Valid store ∧ e.2.Valid store := by
  simp only [Valid, leaves_map, List.forall_mem_flatMap, List.forall_mem_append]

theorem valid_signature {sig : Signature Value} :
    (signature sig).Valid store ↔ ∀ c ∈ sig.constants, c.Valid store := by
  rw [Valid, leaves_signature, List.forall_mem_flatMap]
  rfl

/-! ## Terms in values -/

/-- Every term in a value is well shaped, whatever else the value holds. -/
def TermsWellShaped (x : Value) : Prop := ∀ t, term t ∈ x.leaves → t.WellShaped

theorem Valid.termsWellShaped {x : Value} (h : x.Valid store) : x.TermsWellShaped :=
  fun t ht => h (term t) ht

theorem termsWellShaped_int (i : Int) : (int i).TermsWellShaped :=
  (@valid_int .empty i).termsWellShaped

theorem termsWellShaped_term {t : Term} : (term t).TermsWellShaped ↔ t.WellShaped :=
  ⟨fun h => h t List.mem_cons_self, fun h => (@valid_term .empty t |>.2 h).termsWellShaped⟩

theorem termsWellShaped_tuple {xs : List Value} :
    (tuple xs).TermsWellShaped ↔ ∀ x ∈ xs, x.TermsWellShaped := by
  simp only [TermsWellShaped, leaves_tuple, List.mem_flatMap]
  exact ⟨fun h x hx t ht => h t ⟨x, hx, ht⟩, fun h t ⟨x, hx, ht⟩ => h x hx t ht⟩

theorem termsWellShaped_list {xs : List Value} :
    (list xs).TermsWellShaped ↔ ∀ x ∈ xs, x.TermsWellShaped :=
  termsWellShaped_tuple

end Value

/-- A diagnostic is valid in a store if all its parts are. -/
def Diagnostic.Valid (store : Store) (d : Diagnostic Value) : Prop :=
  d.check.Valid store ∧ d.message.Valid store ∧ ∀ p ∈ d.path, p.Valid store

theorem Value.valid_report {store : Store} {r : Report Value} :
    (report r).Valid store ↔ r.subject.Valid store ∧ ∀ d ∈ r.diagnostics, d.Valid store := by
  simp only [Valid, leaves_report, List.forall_mem_append, List.forall_mem_flatMap,
    Diagnostic.Valid, and_assoc, Option.mem_toList,
    Option.mem_def]

/-! ## Contexts and stores -/

/-- A context is valid in a store if all that it holds is. -/
structure Context.Valid (store : Store) (ctx : Context Value Value) : Prop where
  sig : ctx.sig.Valid store
  diagnostics : ∀ d ∈ ctx.diagnostics, d.Valid store
  constants : ∀ c ∈ ctx.constants, c.Valid store
  nullary : ∀ c ∈ ctx.nullary, c.Valid store

/-- A store is valid if its substitutions bind well-shaped terms and its contexts hold valid
values. -/
structure Store.Valid (store : Store) : Prop where
  substitutions : ∀ s ∈ store.substitutions, s.WellShaped
  contexts : ∀ ctx ∈ store.contexts, ctx.Valid store

section

variable {store store' : Store}

theorem Diagnostic.Valid.mono {d : Diagnostic Value} (h : d.Valid store)
    (hle : store.substitutions.length ≤ store'.substitutions.length) : d.Valid store' :=
  ⟨h.1.mono hle, h.2.1.mono hle, fun p hp => (h.2.2 p hp).mono hle⟩

namespace Context.Valid

variable {ctx : Context Value Value} {check message name : Value} {path : Option Value}

theorem mono (h : ctx.Valid store)
    (hle : store.substitutions.length ≤ store'.substitutions.length) : ctx.Valid store' where
  sig := h.sig.mono hle
  diagnostics := fun d hd => (h.diagnostics d hd).mono hle
  constants := fun c hc => (h.constants c hc).mono hle
  nullary := fun c hc => (h.nullary c hc).mono hle

theorem start {sig : Value} (h : sig.Valid store) :
    (Context.start sig : Context Value Value).Valid store where
  sig := h
  diagnostics := fun _ hd => absurd hd List.not_mem_nil
  constants := fun _ hc => absurd hc List.not_mem_nil
  nullary := fun _ hc => absurd hc List.not_mem_nil

/-- A finding of either severity is one more diagnostic. -/
theorem note (h : ctx.Valid store) {d : Diagnostic Value} (hd : d.Valid store) :
    Context.Valid store { ctx with diagnostics := ctx.diagnostics ++ [d] } where
  sig := h.sig
  diagnostics := by
    intro d' hd'
    rcases List.mem_append.1 hd' with hd' | hd'
    · exact h.diagnostics d' hd'
    · rw [List.mem_singleton.1 hd']
      exact hd
  constants := h.constants
  nullary := h.nullary

theorem forall_mem_insert {P : Value → Prop} {names : List Value} (h : ∀ c ∈ names, P c)
    (hname : P name) : ∀ c ∈ names.insert name, P c := by
  intro c hc
  rw [List.insert] at hc
  split at hc
  · exact h c hc
  · rcases List.mem_cons.1 hc with rfl | hc
    · exact hname
    · exact h c hc

theorem observeConstant (h : ctx.Valid store) (hname : name.Valid store) :
    (ctx.observeConstant name).Valid store :=
  { h with constants := forall_mem_insert h.constants hname }

theorem observeNullary (h : ctx.Valid store) (hname : name.Valid store) :
    (ctx.observeNullary name).Valid store :=
  { h with nullary := forall_mem_insert h.nullary hname }

theorem clashes (h : ctx.Valid store) : ∀ c ∈ ctx.clashes, c.Valid store := by
  intro c hc
  rw [Context.clashes] at hc
  split at hc
  · exact h.constants c (List.mem_of_mem_filter hc)
  · exact h.nullary c (List.mem_of_mem_filter hc)

end Context.Valid

namespace Store.Valid

theorem substitution (h : store.Valid) (id : Nat) : (store.substitution id).WellShaped := by
  unfold Store.substitution
  cases hs : store.substitutions[id]? with
  | none => exact Substitution.wellShaped_empty
  | some s => exact h.substitutions s (List.mem_of_getElem? hs)

theorem context (h : store.Valid) (id : Nat) : (store.context id).Valid store := by
  unfold Store.context
  cases hctx : store.contexts[id]? with
  | none => exact Context.Valid.start Value.valid_null
  | some ctx => exact h.contexts ctx (List.mem_of_getElem? hctx)

theorem newMark (h : store.Valid) : store.newMark.2.Valid where
  substitutions := h.substitutions
  contexts := fun ctx hctx => (h.contexts ctx hctx).mono (Nat.le_refl _)

theorem newSubstitution (h : store.Valid) {s : Substitution} (hs : s.WellShaped) :
    (store.newSubstitution s).2.Valid where
  substitutions := List.forall_mem_append.2 ⟨h.substitutions, List.forall_mem_singleton.2 hs⟩
  contexts := fun ctx hctx => (h.contexts ctx hctx).mono (List.prefix_append _ _).length_le

theorem newContext (h : store.Valid) {ctx : Context Value Value} (hctx : ctx.Valid store) :
    (store.newContext ctx).2.Valid where
  substitutions := h.substitutions
  contexts := by
    intro ctx' hctx'
    rcases List.mem_append.1 hctx' with hctx' | hctx'
    · exact (h.contexts ctx' hctx').mono (Nat.le_refl _)
    · rw [List.mem_singleton.1 hctx']
      exact hctx.mono (Nat.le_refl _)

theorem setSubstitution (h : store.Valid) (id : Nat) {s : Substitution} (hs : s.WellShaped) :
    (store.setSubstitution id s).Valid where
  substitutions := by
    intro s' hs'
    rcases List.mem_or_eq_of_mem_set hs' with hs' | rfl
    · exact h.substitutions s' hs'
    · exact hs
  contexts := fun ctx hctx => (h.contexts ctx hctx).mono (Nat.le_of_eq List.length_set.symm)

theorem setContext (h : store.Valid) (id : Nat) {ctx : Context Value Value}
    (hctx : ctx.Valid store) : (store.setContext id ctx).Valid where
  substitutions := h.substitutions
  contexts := by
    intro ctx' hctx'
    rcases List.mem_or_eq_of_mem_set hctx' with hctx' | rfl
    · exact (h.contexts ctx' hctx').mono (Nat.le_refl _)
    · exact hctx.mono (Nat.le_refl _)

end Store.Valid

end

end TermAlgebra
