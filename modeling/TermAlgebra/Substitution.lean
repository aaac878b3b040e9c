import TermAlgebra.Term.Shape

/-!
# Substitutions

What a substitution is and how it is changed and written, what it does to terms and equations, what
can be asked of one and of two, and how two are composed.
-/

namespace TermAlgebra

/-!
## Bindings

A substitution is a list of bindings `v -> t` in which every variable is bound at most once.  The
order is the order of insertion; it shows when bindings are listed or written and means nothing
otherwise.  A binding is added at the end, and only if its variable is still free (`add`); removing
one closes the gap (`remove`).
-/

/-- A finite list of bindings with distinct variables. -/
@[ext]
structure Substitution where
  bindings : List (Var × Term)
  distinct : (bindings.map Prod.fst).Nodup
deriving DecidableEq

namespace Substitution

/-- The substitution without bindings. -/
def empty : Substitution := ⟨[], List.nodup_nil⟩

instance : EmptyCollection Substitution := ⟨empty⟩

instance : Inhabited Substitution := ⟨empty⟩

@[simp] theorem bindings_empty : (∅ : Substitution).bindings = [] := rfl

/-- The number of bindings. -/
def size (s : Substitution) : Nat := s.bindings.length

/-- There are no bindings. -/
def isEmpty (s : Substitution) : Bool := s.bindings.isEmpty

/-- The bound variables, in order. -/
def domain (s : Substitution) : List Var := s.bindings.map Prod.fst

/-- The bound terms, in order. -/
def terms (s : Substitution) : List Term := s.bindings.map Prod.snd

/-- A variable belongs to a substitution that binds it. -/
instance : Membership Var Substitution := ⟨fun s v => v ∈ s.domain⟩

theorem mem_iff {s : Substitution} {v : Var} : v ∈ s ↔ v ∈ s.domain := Iff.rfl

instance (v : Var) (s : Substitution) : Decidable (v ∈ s) :=
  inferInstanceAs (Decidable (v ∈ s.domain))

/-- Whether a variable is bound. -/
def contains (s : Substitution) (v : Var) : Bool := decide (v ∈ s)

/-- The term bound to a variable, if there is one. -/
def lookup (s : Substitution) (v : Var) : Option Term := s.bindings.lookup v

theorem lookup_eq_none_iff {s : Substitution} {v : Var} : s.lookup v = none ↔ v ∉ s := by
  rw [lookup, List.lookup_eq_none_iff, mem_iff, domain, List.mem_map, not_exists]
  refine forall_congr' fun b => ?_
  rw [not_and, bne_iff_ne]
  exact forall_congr' fun _ => not_congr eq_comm

theorem lookup_eq_some_iff {s : Substitution} {v : Var} {t : Term} :
    s.lookup v = some t ↔ (v, t) ∈ s.bindings := by
  rw [lookup, List.lookup_eq_some_iff]
  constructor
  · rintro ⟨before, after, h, -⟩
    simp [h]
  · intro h
    obtain ⟨before, after, hs⟩ := List.append_of_mem h
    refine ⟨before, after, hs, fun b hb => ?_⟩
    have hd := s.distinct
    rw [hs, List.map_append, List.nodup_append] at hd
    exact bne_iff_ne.2 (hd.2.2 b.1 (List.mem_map_of_mem hb) v (by simp)).symm

/-! ### Changes -/

/-- Binds `v` to `t` behind all other bindings.  A bound variable keeps its term: it must be removed
first. -/
def add (s : Substitution) (v : Var) (t : Term) : Except Fault Substitution :=
  if h : v ∈ s then .error (.alreadyBound v)
  else .ok {
    bindings := s.bindings ++ [(v, t)]
    distinct := by
      rw [List.map_append, List.nodup_append]
      refine ⟨s.distinct, by simp, fun x hx y hy => ?_⟩
      simp only [List.map_cons, List.map_nil, List.mem_singleton] at hy
      subst hy
      exact fun hxy => h (hxy ▸ hx) }

/-- Adds bindings one after the other and stops at the first that cannot be added. -/
def addAll (s : Substitution) : List (Var × Term) → Except Fault Substitution
  | [] => .ok s
  | (v, t) :: rest => do
    let s ← s.add v t
    s.addAll rest

/-- The bindings of a list, if no variable occurs in it twice. -/
def ofList (pairs : List (Var × Term)) : Except Fault Substitution := empty.addAll pairs

/-- Removes the binding of `v`, if there is one, and keeps the order of the others. -/
def remove (s : Substitution) (v : Var) : Substitution where
  bindings := s.bindings.filter fun b => b.1 ≠ v
  distinct := s.distinct.sublist (List.filter_sublist.map Prod.fst)

theorem bindings_add {s s' : Substitution} {v : Var} {t : Term} (h : s.add v t = .ok s') :
    v ∉ s ∧ s'.bindings = s.bindings ++ [(v, t)] := by
  unfold add at h
  split at h
  · cases h
  · next hv => cases h; exact ⟨hv, rfl⟩

theorem add_of_mem {s : Substitution} {v : Var} (t : Term) (h : v ∈ s) :
    s.add v t = .error (.alreadyBound v) := by
  unfold add; rw [dif_pos h]

theorem add_of_not_mem {s : Substitution} {v : Var} (t : Term) (h : v ∉ s) :
    ∃ s', s.add v t = .ok s' ∧ s'.bindings = s.bindings ++ [(v, t)] := by
  unfold add
  rw [dif_neg h]
  exact ⟨_, rfl, rfl⟩

/-- Bindings can be added where none of their variables is bound, there or by another of them. -/
theorem addAll_eq_ok (s : Substitution) (pairs : List (Var × Term))
    (hd : (s.domain ++ pairs.map Prod.fst).Nodup) :
    ∃ s', s.addAll pairs = .ok s' ∧ s'.bindings = s.bindings ++ pairs := by
  induction pairs generalizing s with
  | nil => exact ⟨s, rfl, (List.append_nil _).symm⟩
  | cons b rest ih =>
    obtain ⟨v, t⟩ := b
    have hv : v ∉ s := fun h => by
      rw [List.nodup_append] at hd
      exact hd.2.2 v h v (by simp) rfl
    obtain ⟨s', hs', hb⟩ := add_of_not_mem t hv
    have hdomain : s'.domain = s.domain ++ [v] := by simp [domain, hb]
    obtain ⟨r, hr, hrb⟩ := ih s' (by simpa [hdomain] using hd)
    refine ⟨r, ?_, ?_⟩
    · rw [addAll, hs']
      exact hr
    · rw [hrb, hb, List.append_assoc]
      rfl

@[simp] theorem bindings_remove (s : Substitution) (v : Var) :
    (s.remove v).bindings = s.bindings.filter fun b => b.1 ≠ v := rfl

/-! ### Written form -/

/-- The written form of one binding. -/
def renderBinding (b : Var × Term) : String := b.1.name ++ " -> " ++ b.2.render

/-- The written form `{v -> t, w -> u}`, with the bindings in order. -/
def render (s : Substitution) : String :=
  "\x7b" ++ ", ".intercalate (s.bindings.map renderBinding) ++ "\x7d"

/-! ### Shape -/

/-- Every bound term is well shaped. -/
def WellShaped (s : Substitution) : Prop := ∀ t ∈ s.terms, t.WellShaped

instance (s : Substitution) : Decidable s.WellShaped :=
  inferInstanceAs (Decidable (∀ t ∈ s.terms, t.WellShaped))

/-- Adds bindings one after the other, each with its term built anew. -/
def addRebuilt (s : Substitution) : List (Var × Term) → Except Fault Substitution
  | [] => .ok s
  | (v, t) :: rest => do
    let t ← t.rebuild
    let s ← s.add v t
    s.addRebuilt rest

/-- Builds a substitution anew, binding by binding. -/
def rebuild (s : Substitution) : Except Fault Substitution := empty.addRebuilt s.bindings

/-- Well-shaped terms are added as they are. -/
theorem addRebuilt_eq_addAll {pairs : List (Var × Term)} (hw : ∀ b ∈ pairs, b.2.WellShaped)
    (s : Substitution) : s.addRebuilt pairs = s.addAll pairs := by
  induction pairs generalizing s with
  | nil => rfl
  | cons b rest ih =>
    obtain ⟨hb, hrest⟩ := List.forall_mem_cons.1 hw
    have ht : b.2.rebuild = .ok b.2 := Term.rebuild_eq_ok_iff.2 ⟨hb, rfl⟩
    rw [addRebuilt, addAll, ht]
    exact congrArg ((s.add b.1 b.2).bind ·) (funext (ih hrest))

/-- A substitution that binds well-shaped terms is given back when it is built anew. -/
theorem rebuild_eq_ok {s : Substitution} (h : s.WellShaped) : s.rebuild = .ok s := by
  obtain ⟨s', hs', hb⟩ := addAll_eq_ok ∅ s.bindings s.distinct
  have heq : s' = s := Substitution.ext hb
  rw [rebuild, addRebuilt_eq_addAll fun b hb => h b.2 (List.mem_map_of_mem hb)]
  exact heq ▸ hs'

/-!
## Applying a substitution

A substitution acts on terms by replacing every bound variable with its term, all at once: the
terms put in are not looked into again.
-/

/-- The map from variables to terms that a substitution stands for: an unbound variable stays. -/
def toFun (s : Substitution) (v : Var) : Term := (s.lookup v).getD (.var v)

theorem toFun_of_not_mem {s : Substitution} {v : Var} (h : v ∉ s) : s.toFun v = .var v := by
  unfold toFun
  rw [lookup_eq_none_iff.2 h]
  rfl

theorem toFun_of_lookup {s : Substitution} {v : Var} {t : Term} (h : s.lookup v = some t) :
    s.toFun v = t := by
  unfold toFun
  rw [h]
  rfl

/-- Replaces the bound variables of a term.  Without bindings the term is left as it is. -/
def apply (s : Substitution) (t : Term) : Term := if s.isEmpty then t else t.subst s.toFun

/-- Leaving a term as it is, when nothing is bound, agrees with replacing what is bound. -/
theorem apply_eq_subst (s : Substitution) (t : Term) : s.apply t = t.subst s.toFun := by
  unfold apply
  split
  · next h =>
    have hempty : s.toFun = .var := by
      funext v
      refine toFun_of_not_mem fun hv => ?_
      rw [mem_iff, domain, List.isEmpty_iff.1 h] at hv
      cases hv
    rw [hempty, Term.subst_var_self]
  · rfl

/-- Replaces the bound variables on both sides of an equation. -/
def applyEquation (s : Substitution) (e : Equation) : Equation := ⟨s.apply e.lhs, s.apply e.rhs⟩

/-!
## Properties of a substitution and of two

The variables that bound terms bring in, whether applying twice is applying once, whether two
substitutions hold the same bindings, and what is left when the bindings `v -> v` are dropped.
-/

/-- The variables of the bound terms, each once, in the order in which they first occur.  Each term
contributes its own list of variables. -/
def rangeVariables (s : Substitution) : List Var := (s.terms.flatMap Term.vars).eraseDups

/-- No bound variable comes back in a bound term. -/
def isIdempotent (s : Substitution) : Bool := !s.domain.any s.rangeVariables.contains

/-- Whether `v` is bound to a term that is the same as `t`. -/
def binds (s : Substitution) (v : Var) (t : Term) : Bool :=
  match s.lookup v with
  | some u => t.same u
  | none => false

/-- Two substitutions are equivalent when they are equally large and each binding of the first is
one of the second: order is left out of account. -/
def equivalent (s s' : Substitution) : Bool :=
  s.size == s'.size && s.bindings.all fun b => s'.binds b.1 b.2

/-- A binding is trivial when it binds a variable to itself. -/
def isTrivial (b : Var × Term) : Bool := (Term.var b.1).same b.2

/-- The bindings that are not trivial, in order. -/
def withoutTrivial (s : Substitution) : Substitution where
  bindings := s.bindings.filter fun b => !isTrivial b
  distinct := s.distinct.sublist (List.filter_sublist.map Prod.fst)

/-!
## Composition

Composing `s₁` with `s₂` gives the substitution that acts like `s₁` followed by `s₂`.  If `s₁` has
no bindings it is `s₂`.  Otherwise it is built in four stages:

* `s₂` is applied to every term bound by `s₁` (`applyToTerms`);
* the variables bound by `s₁` are removed from `s₂` (`dropShadowed`);
* those of the new bindings that became trivial are removed (`dropTrivial`);
* what is left of `s₂` is added to what is left of `s₁` (`unite`).

The order matters: a variable whose binding became trivial hides the binding that `s₂` has for it.
Composition takes its removal step as a parameter, so that one can say what the last stage protects
against, and it keeps a trace of what it did.
-/

/-- What composition tells about its work. -/
inductive Trace where
  | appliedRight (left : Substitution)
  | keptLeft (v : Var)
  | droppedTrivial (v : Var) (t : Term)
  | finished (left right result : Substitution)
deriving DecidableEq

/-- The text of a trace entry. -/
def Trace.message : Trace → String
  | .appliedRight left => "compose: rewrote left bindings to " ++ left.render
  | .keptLeft v => "compose: " ++ v.name ++ " bound on both sides, keeping left binding"
  | .droppedTrivial v t => "compose: dropping trivial binding " ++ v.name ++ " -> " ++ t.render
  | .finished left right result =>
    "compose: " ++ left.render ++ " . " ++ right.render ++ " = " ++ result.render

/-- The bindings of `s₁`, each with `s₂` applied to its term. -/
def applyToTerms (s₁ s₂ : Substitution) : Except Fault Substitution :=
  ofList (s₁.bindings.map fun b => (b.1, s₂.apply b.2))

/-- Removes the given variables from `right`, as far as they are bound there. -/
def dropShadowed (drop : Substitution → Var → Substitution) :
    List Var → Substitution → Substitution × List Trace
  | [], right => (right, [])
  | v :: vs, right =>
    if right.contains v then
      let (rest, trace) := dropShadowed drop vs (drop right v)
      (rest, .keptLeft v :: trace)
    else dropShadowed drop vs right

/-- Removes from `left` the variables of those given bindings that are trivial. -/
def dropTrivial (drop : Substitution → Var → Substitution) :
    List (Var × Term) → Substitution → Substitution × List Trace
  | [], left => (left, [])
  | b :: bs, left =>
    if isTrivial b then
      let (rest, trace) := dropTrivial drop bs (drop left b.1)
      (rest, .droppedTrivial b.1 b.2 :: trace)
    else dropTrivial drop bs left

/-- Adds the given bindings to `left`.  They must not bind a variable again. -/
def unite (left : Substitution) : List (Var × Term) → Except Fault Substitution
  | [] => .ok left
  | (v, t) :: rest =>
    match left.add v t with
    | .ok left => left.unite rest
    | .error _ => .error (.boundTwice v)

/-- Composition with the removal step `drop`. -/
def composeWith (drop : Substitution → Var → Substitution) (s₁ s₂ : Substitution) :
    Except Fault (Substitution × List Trace) :=
  if s₁.isEmpty then .ok (s₂, [])
  else do
    let applied ← applyToTerms s₁ s₂
    let (right, shadowed) := dropShadowed drop applied.domain s₂
    let (left, trivial) := dropTrivial drop applied.bindings applied
    let result ← left.unite right.bindings
    .ok (result, .appliedRight applied :: shadowed ++ trivial ++ [.finished s₁ s₂ result])

/-- The substitution that acts like `s₁` followed by `s₂`, with the trace of its making. -/
def composeTraced (s₁ s₂ : Substitution) : Except Fault (Substitution × List Trace) :=
  composeWith remove s₁ s₂

/-- The substitution that acts like `s₁` followed by `s₂`. -/
def compose (s₁ s₂ : Substitution) : Except Fault Substitution :=
  (composeTraced s₁ s₂).map Prod.fst

/-- Composition in which nothing is removed. -/
def composeKeeping (s₁ s₂ : Substitution) : Except Fault (Substitution × List Trace) :=
  composeWith (fun s _ => s) s₁ s₂

end Substitution

end TermAlgebra
