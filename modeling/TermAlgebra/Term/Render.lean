import TermAlgebra.Term.Basic

/-!
# Written form of terms

How a term is written, and what its written form tells of it.
-/

namespace TermAlgebra

/-!
## Texts

A variable and a constant are written as their name, an application as `f(a,b)` without blanks,
and an application to no arguments as the bare name of its symbol.  So a variable, a constant and
a symbol without arguments of one name are written alike.
-/

namespace Term

mutual

/-- The written form of a term. -/
def render : Term → String
  | .var v => v.name
  | .const c => c
  | .app f [] => f.name
  | .app f (a :: as) => f.name ++ "(" ++ render a ++ renderRest as ++ ")"

/-- The written form of the arguments after the first, each behind a comma. -/
def renderRest : List Term → String
  | [] => ""
  | a :: as => "," ++ render a ++ renderRest as

end

@[simp] theorem render_var (v : Var) : render (.var v) = v.name := by simp [render]

@[simp] theorem render_const (c : String) : render (.const c) = c := by simp [render]

@[simp] theorem render_app_nil (f : Symbol) : render (.app f []) = f.name := by simp [render]

@[simp] theorem render_app_cons (f : Symbol) (a : Term) (as : List Term) :
    render (.app f (a :: as)) = f.name ++ "(" ++ a.render ++ renderRest as ++ ")" := by
  simp [render]

end Term

/-!
## Skeletons

The written form of a term does not tell a variable from a constant or from a symbol without
arguments.  The skeleton of a term is what it does tell: leaves with their names, and names of
symbols over the skeletons of their arguments.
-/

/-- Terms whose leaves are bare names. -/
inductive Skeleton where
  | leaf (name : String)
  | node (name : String) (first : Skeleton) (rest : List Skeleton)
deriving Inhabited

namespace Term

mutual

/-- The skeleton of a term. -/
def skeleton : Term → Skeleton
  | .var v => .leaf v.name
  | .const c => .leaf c
  | .app f [] => .leaf f.name
  | .app f (a :: as) => .node f.name (skeleton a) (skeletonArgs as)

/-- The skeletons of the arguments. -/
def skeletonArgs : List Term → List Skeleton
  | [] => []
  | a :: as => skeleton a :: skeletonArgs as

end

theorem skeletonArgs_eq (as : List Term) : skeletonArgs as = as.map skeleton := by
  induction as with
  | nil => rfl
  | cons a as ih => simp [skeletonArgs, ih]

theorem skeleton_app_eq_leaf_iff {f : Symbol} {as : List Term} {name : String} :
    (app f as).skeleton = .leaf name ↔ f.name = name ∧ as = [] := by
  cases as with
  | nil => simp [skeleton]
  | cons a as => simp [skeleton]

theorem skeleton_app_eq_app_iff {f g : Symbol} {as bs : List Term} :
    (app f as).skeleton = (app g bs).skeleton ↔
      f.name = g.name ∧ as.map skeleton = bs.map skeleton := by
  cases as with
  | nil => cases bs <;> simp [skeleton]
  | cons a as => cases bs <;> simp [skeleton, skeletonArgs_eq]

mutual

/-- Every name in a term, be it of a variable, a constant or a symbol, in preorder. -/
def names : Term → List String
  | .var v => [v.name]
  | .const c => [c]
  | .app f as => f.name :: namesArgs as

/-- Every name in the arguments. -/
def namesArgs : List Term → List String
  | [] => []
  | a :: as => names a ++ namesArgs as

end

theorem namesArgs_eq (as : List Term) : namesArgs as = as.flatMap names := by
  induction as with
  | nil => rfl
  | cons a as ih => simp [namesArgs, ih]

end Term

end TermAlgebra
