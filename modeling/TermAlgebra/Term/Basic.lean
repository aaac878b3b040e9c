/-!
# Names and terms

Variables and function symbols are known by their names, a symbol also by the number of arguments
that it takes.  From them and from constants first-order terms are built.  A place in a term is
known by its position, and messages name it by its path.

Functions on terms come in pairs, one for a term and one for a list of arguments.
-/

namespace TermAlgebra

/-!
## Variables and function symbols

The names that terms are built from.  A variable is known by its name alone; a function symbol
is known by its name together with the number of arguments it takes.
-/

/-- A variable, known by its name. -/
@[ext]
structure Var where
  name : String
deriving DecidableEq, Inhabited

/-- A function symbol with a fixed number of arguments. -/
@[ext]
structure Symbol where
  name : String
  arity : Nat
deriving DecidableEq, Inhabited

/-- A symbol without arguments stands for a single value. -/
def Symbol.isConstant (f : Symbol) : Bool := f.arity == 0

/-!
## First-order terms

A term is a variable, a constant, or a function symbol applied to a list of terms.  There is
structural equality (`same`, which is what decides `=`), the action `subst` of a map from variables
to terms, and the variables of a term in the order of their first occurrence.  The lemmas `…Args_eq`
turn the function on argument lists of each pair into the list operation that it is.
-/

/-- First-order terms. -/
inductive Term where
  | var (v : Var)
  | const (name : String)
  | app (symbol : Symbol) (args : List Term)
deriving Inhabited

namespace Term

/-- To prove a statement of all terms, prove it of an application from its arguments. -/
@[elab_as_elim]
theorem inductionOn {motive : Term → Prop} (t : Term) (var : ∀ v, motive (.var v))
    (const : ∀ c, motive (.const c))
    (app : ∀ f args, (∀ a ∈ args, motive a) → motive (.app f args)) : motive t :=
  @Term.rec motive (fun args => ∀ a ∈ args, motive a)
    var const (fun f args ih => app f args ih) (fun _ h => absurd h List.not_mem_nil)
    (fun _ _ ihHead ihTail _ h => (List.mem_cons.1 h).elim (· ▸ ihHead) (ihTail _)) t

/-! ### Structural equality -/

mutual

/-- Two terms are the same when they agree node by node: in kind, in name, in symbol and in
every argument. -/
def same : Term → Term → Bool
  | .var v, .var w => v == w
  | .const c, .const d => c == d
  | .app f as, .app g bs => f == g && sameArgs as bs
  | _, _ => false

/-- Two argument lists are the same when they are equally long and agree place by place. -/
def sameArgs : List Term → List Term → Bool
  | [], [] => true
  | a :: as, b :: bs => same a b && sameArgs as bs
  | _, _ => false

end

theorem same_iff (t u : Term) : same t u = true ↔ t = u := by
  induction t using inductionOn generalizing u with
  | var v => cases u <;> simp [same]
  | const c => cases u <;> simp [same]
  | app f as ih =>
    cases u with
    | var w => simp [same]
    | const d => simp [same]
    | app g bs =>
      have hargs : sameArgs as bs = true ↔ as = bs := by
        clear f
        induction as generalizing bs with
        | nil => cases bs <;> simp [sameArgs]
        | cons a as ihas =>
          cases bs with
          | nil => simp [sameArgs]
          | cons b bs =>
            have hhead := ih a List.mem_cons_self b
            have htail := ihas (fun x hx => ih x (List.mem_cons_of_mem a hx)) bs
            simp [sameArgs, hhead, htail]
      simp [same, hargs]

instance : DecidableEq Term := fun t u => decidable_of_iff _ (same_iff t u)

/-! ### Action of a map from variables to terms -/

mutual

/-- Replaces every variable `v` by `θ v`, everywhere at once. -/
def subst (θ : Var → Term) : Term → Term
  | .var v => θ v
  | .const c => .const c
  | .app f as => .app f (substArgs θ as)

/-- Replaces the variables in every argument. -/
def substArgs (θ : Var → Term) : List Term → List Term
  | [] => []
  | a :: as => subst θ a :: substArgs θ as

end

theorem substArgs_eq (θ : Var → Term) (as : List Term) : substArgs θ as = as.map (subst θ) := by
  induction as with
  | nil => rfl
  | cons a as ih => simp [substArgs, ih]

@[simp] theorem subst_var (θ : Var → Term) (v : Var) : subst θ (.var v) = θ v := by
  simp [subst]

@[simp] theorem subst_const (θ : Var → Term) (c : String) : subst θ (.const c) = .const c := by
  simp [subst]

@[simp] theorem subst_app (θ : Var → Term) (f : Symbol) (as : List Term) :
    subst θ (.app f as) = .app f (as.map (subst θ)) := by
  simp [subst, substArgs_eq]

/-- A variable stays when it is mapped to itself. -/
theorem subst_var_self (t : Term) : subst .var t = t := by
  induction t using inductionOn with
  | var v => simp
  | const c => simp
  | app f as ih =>
    rw [subst_app]
    congr 1
    exact (List.map_congr_left ih).trans as.map_id

/-- Substituting twice is substituting into the images. -/
theorem subst_subst (θ η : Var → Term) (t : Term) :
    subst η (subst θ t) = subst (fun v => subst η (θ v)) t := by
  induction t using inductionOn with
  | var v => simp
  | const c => simp
  | app f as ih =>
    simp only [subst_app, List.map_map]
    congr 1
    exact List.map_congr_left ih

/-! ### Variables -/

mutual

/-- Every occurrence of a variable, from left to right. -/
def occurrences : Term → List Var
  | .var v => [v]
  | .const _ => []
  | .app _ as => occurrencesArgs as

/-- Every occurrence of a variable in the arguments, from left to right. -/
def occurrencesArgs : List Term → List Var
  | [] => []
  | a :: as => occurrences a ++ occurrencesArgs as

end

theorem occurrencesArgs_eq (as : List Term) : occurrencesArgs as = as.flatMap occurrences := by
  induction as with
  | nil => rfl
  | cons a as ih => simp [occurrencesArgs, ih]

@[simp] theorem occurrences_var (v : Var) : occurrences (.var v) = [v] := by
  simp [occurrences]

@[simp] theorem occurrences_const (c : String) : occurrences (.const c) = [] := by
  simp [occurrences]

@[simp] theorem occurrences_app (f : Symbol) (as : List Term) :
    occurrences (.app f as) = as.flatMap occurrences := by
  simp [occurrences, occurrencesArgs_eq]

/-- Maps that agree on the variables of a term, and only those, have the same action on it. -/
theorem subst_eq_subst_iff {θ η : Var → Term} {t : Term} :
    subst θ t = subst η t ↔ ∀ v ∈ t.occurrences, θ v = η v := by
  induction t using inductionOn with
  | var v => simp
  | const c => simp
  | app f as ih =>
    simp only [subst_app, Term.app.injEq, true_and, List.map_inj_left, occurrences_app,
      List.mem_flatMap, forall_exists_index, and_imp]
    exact ⟨fun h v a ha => (ih a ha).1 (h a ha) v, fun h a ha => (ih a ha).2 fun v => h v a ha⟩

/-- The variables of a term, each once, in the order of their first occurrence. -/
def vars (t : Term) : List Var := t.occurrences.eraseDups

/-- A ground term has no variables. -/
def isGround (t : Term) : Bool := t.vars.isEmpty

end Term

/-!
## Positions and nodes

A position in a term is the list of argument indices on the way from the root.  The nodes of a term
are listed in preorder: a node before its arguments, and the arguments from left to right.
-/

/-- The argument indices on the way from the root. -/
abbrev Position := List Nat

namespace Term

/-- The subterm at a position, if there is one. -/
def at? : Term → Position → Option Term
  | t, [] => some t
  | .app _ as, i :: p =>
    match as[i]? with
    | some a => a.at? p
    | none => none
  | _, _ :: _ => none

/-- A node moved from the root to the argument with index `i`. -/
def underArg (i : Nat) (node : Position × Term) : Position × Term := (i :: node.1, node.2)

mutual

/-- The nodes of a term, each with its position and the subterm there. -/
def nodes : Term → List (Position × Term)
  | .var v => [([], .var v)]
  | .const c => [([], .const c)]
  | .app f as => ([], .app f as) :: nodesArgs 0 as

/-- The nodes of the arguments from index `i` on. -/
def nodesArgs (i : Nat) : List Term → List (Position × Term)
  | [] => []
  | a :: as => (nodes a).map (underArg i) ++ nodesArgs (i + 1) as

end

/-- The symbols of the applications in a term, in preorder. -/
def symbols (t : Term) : List Symbol :=
  t.nodes.filterMap fun node =>
    match node.2 with
    | .app f _ => some f
    | _ => none

/-- The names of the constants in a term, in preorder. -/
def constants (t : Term) : List String :=
  t.nodes.filterMap fun node =>
    match node.2 with
    | .const c => some c
    | _ => none

/-- The variables at the nodes of a term, each with its position, in preorder. -/
def variableNodes (t : Term) : List (Position × Var) :=
  t.nodes.filterMap fun node =>
    match node.2 with
    | .var v => some (node.1, v)
    | _ => none

end Term

/-!
## Paths

Diagnostics name a place by a path: the whole that was checked, followed by `.args[i]` for each step
down to an argument.
-/

/-- The path of the argument with index `i` of the node at a path. -/
def argPath (path : String) (i : Nat) : String := path ++ ".args[" ++ toString i ++ "]"

/-- The path of the term bound to a variable. -/
def bindingPath (v : Var) : String := "subst[" ++ v.name ++ "]"

/-- The path that leads from the whole at `path` to a position in it. -/
def Position.path (path : String) (p : Position) : String := p.foldl argPath path

end TermAlgebra
