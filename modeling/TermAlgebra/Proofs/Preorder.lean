import TermAlgebra.Proofs.Delimiter
import TermAlgebra.Term.Basic

/-!
# Nodes in preorder

The nodes of a term are the subterms at its positions (`mem_nodes`), listed in the lexicographic
order of the positions (`pairwise_nodes`).  What is collected from them without regard to positions
is collected argument by argument (`filterMap_nodes_app`), and replacing variables puts nodes in the
place of variables (`nodes_subst`).
-/

namespace TermAlgebra

/-!
## Nodes of terms

What is collected from the nodes of an application without regard to their positions is collected
from its root and from its arguments, one after the other (`filterMap_nodes_app`).  When variables
are replaced, the nodes of a term stay where they are, and each variable gives way to the nodes of
the term put in, moved to the place of the variable (`nodes_subst`).
-/

/-! ### Paths -/

theorem Position.path_append (path : String) (p q : Position) :
    Position.path path (p ++ q) = Position.path (Position.path path p) q :=
  List.foldl_append

/-- A path begins with the path of the whole. -/
theorem Position.path_eq_append (path : String) (p : Position) :
    Position.path path p = path ++ Position.path "" p := by
  induction p generalizing path with
  | nil => exact String.append_empty.symm
  | cons i p ih =>
    have hstep : argPath path i = path ++ argPath "" i := by simp [argPath, String.append_assoc]
    calc Position.path path (i :: p)
        = argPath path i ++ Position.path "" p := ih (argPath path i)
      _ = path ++ (argPath "" i ++ Position.path "" p) := by rw [hstep, String.append_assoc]
      _ = path ++ Position.path "" (i :: p) := by rw [← ih (argPath "" i)]; rfl

namespace Term

/-! ### What nodes hold -/

/-- The variable at the root. -/
def rootVar : Term → Option Var
  | .var v => some v
  | _ => none

/-- The name of the constant at the root. -/
def rootConstant : Term → Option String
  | .const c => some c
  | _ => none

/-- The symbol at the root. -/
def rootSymbol : Term → Option Symbol
  | .app f _ => some f
  | _ => none

theorem filterMap_nodes_app {β : Type} (g : Term → Option β) (f : Symbol) (as : List Term) :
    (nodes (.app f as)).filterMap (fun node => g node.2) =
      (g (.app f as)).toList ++ as.flatMap fun a => a.nodes.filterMap fun node => g node.2 := by
  have hargs : ∀ i, (nodesArgs i as).filterMap (fun node => g node.2) =
      as.flatMap fun a => a.nodes.filterMap fun node => g node.2 := by
    induction as with
    | nil => exact fun i => rfl
    | cons a as ih =>
      intro i
      rw [nodesArgs, List.filterMap_append, List.filterMap_map, ih, List.flatMap_cons]
      rfl
  rw [nodes, ← hargs 0, List.filterMap_cons]
  cases g (.app f as) <;> rfl

@[simp] theorem constants_var (v : Var) : constants (.var v) = [] := by simp [constants, nodes]

@[simp] theorem constants_const (c : String) : constants (.const c) = [c] := by
  simp [constants, nodes]

@[simp] theorem constants_app (f : Symbol) (as : List Term) :
    constants (.app f as) = as.flatMap constants :=
  filterMap_nodes_app rootConstant f as

@[simp] theorem symbols_var (v : Var) : symbols (.var v) = [] := by simp [symbols, nodes]

@[simp] theorem symbols_const (c : String) : symbols (.const c) = [] := by simp [symbols, nodes]

@[simp] theorem symbols_app (f : Symbol) (as : List Term) :
    symbols (.app f as) = f :: as.flatMap symbols :=
  filterMap_nodes_app rootSymbol f as

/-- The names of the symbols without arguments in a term, in preorder. -/
def nullary (t : Term) : List String := (t.symbols.filter Symbol.isConstant).map Symbol.name

@[simp] theorem nullary_var (v : Var) : nullary (.var v) = [] := by simp [nullary]

@[simp] theorem nullary_const (c : String) : nullary (.const c) = [] := by simp [nullary]

@[simp] theorem nullary_app (f : Symbol) (as : List Term) :
    nullary (.app f as) = (if f.isConstant then [f.name] else []) ++ as.flatMap nullary := by
  have hargs : as.flatMap nullary =
      ((as.flatMap symbols).filter Symbol.isConstant).map Symbol.name := by
    rw [List.filter_flatMap, List.map_flatMap]
    rfl
  rw [nullary, symbols_app, hargs]
  cases hf : f.isConstant <;> simp [hf]

theorem flatMap_variableNodes {β : Type} (g : Position × Var → List β) (t : Term) :
    t.variableNodes.flatMap g =
      t.nodes.flatMap fun node => node.2.rootVar.toList.flatMap fun v => g (node.1, v) := by
  rw [variableNodes, List.filterMap_eq_flatMap_toList, List.flatMap_assoc]
  refine List.flatMap_congr fun node _ => ?_
  cases node.2 <;> rfl

/-- The variables at the nodes are the occurrences, from left to right. -/
theorem map_snd_variableNodes (t : Term) : t.variableNodes.map Prod.snd = t.occurrences := by
  have hroot : ∀ t : Term, t.variableNodes.map Prod.snd =
      t.nodes.filterMap fun node => node.2.rootVar := by
    intro t
    rw [variableNodes, List.map_filterMap]
    refine List.filterMap_congr fun node _ => ?_
    cases node.2 <;> rfl
  induction t using inductionOn with
  | var v => simp [variableNodes, nodes]
  | const c => simp [variableNodes, nodes]
  | app f as ih =>
    rw [hroot, filterMap_nodes_app, occurrences_app]
    exact List.flatMap_congr fun a ha => (hroot a).symm.trans (ih a ha)

/-! ### Nodes after a substitution -/

/-- A node of the subterm at a position, as a node of the whole. -/
def under (p : Position) (node : Position × Term) : Position × Term := (p ++ node.1, node.2)

/-- What becomes of a node when variables are replaced. -/
def graft (θ : Var → Term) : Position × Term → List (Position × Term)
  | (p, .var v) => (θ v).nodes.map (under p)
  | (p, u) => [(p, u.subst θ)]

theorem graft_const (θ : Var → Term) (p : Position) (c : String) :
    graft θ (p, .const c) = [(p, .const c)] := rfl

theorem graft_app (θ : Var → Term) (p : Position) (f : Symbol) (as : List Term) :
    graft θ (p, .app f as) = [(p, .app f (as.map (subst θ)))] := by
  rw [← subst_app]
  rfl

theorem graft_underArg (θ : Var → Term) (i : Nat) (node : Position × Term) :
    graft θ (underArg i node) = (graft θ node).map (underArg i) := by
  obtain ⟨p, u⟩ := node
  cases u with
  | var v =>
    rw [underArg, graft, graft, List.map_map]
    rfl
  | const c => rfl
  | app f as => rfl

theorem nodesArgs_subst {θ : Var → Term} {as : List Term}
    (ih : ∀ a ∈ as, (a.subst θ).nodes = a.nodes.flatMap (graft θ)) (i : Nat) :
    nodesArgs i (as.map (subst θ)) = (nodesArgs i as).flatMap (graft θ) := by
  induction as generalizing i with
  | nil => rfl
  | cons a as ihas =>
    have hhead : (a.subst θ).nodes.map (underArg i) =
        (a.nodes.map (underArg i)).flatMap (graft θ) := by
      rw [ih a List.mem_cons_self, List.map_flatMap, List.flatMap_map]
      exact List.flatMap_congr fun node _ => (graft_underArg θ i node).symm
    have htail := ihas (fun x hx => ih x (List.mem_cons_of_mem a hx)) (i + 1)
    rw [List.map_cons, nodesArgs, nodesArgs, List.flatMap_append, hhead, htail]

theorem nodes_subst (θ : Var → Term) (t : Term) :
    (t.subst θ).nodes = t.nodes.flatMap (graft θ) := by
  induction t using inductionOn with
  | var v =>
    have hroot : (θ v).nodes.map (under []) = (θ v).nodes := List.map_id' _
    rw [subst_var, nodes, List.flatMap_singleton, graft, hroot]
  | const c => rfl
  | app f as ih =>
    rw [subst_app, nodes, nodes, List.flatMap_cons, ← nodesArgs_subst ih 0, graft_app]
    rfl

/-!
## Preorder

The nodes of a term are the subterms at its positions (`mem_nodes`), and they are listed in the
lexicographic order of the positions (`pairwise_nodes`): a node before those below it, and those
below one argument before those below the next.  The path of a position can be followed: the numbers
written in it are the argument indices on the way (`numbers_path`), so no two positions have the
same path.
-/

/-! ### Subterms at positions -/

@[simp] theorem at?_nil (t : Term) : t.at? [] = some t := by cases t <;> simp [at?]

@[simp] theorem at?_var_cons (v : Var) (i : Nat) (p : Position) : (var v).at? (i :: p) = none := by
  simp [at?]

@[simp] theorem at?_const_cons (c : String) (i : Nat) (p : Position) :
    (const c).at? (i :: p) = none := by
  simp [at?]

theorem at?_app_cons (f : Symbol) (as : List Term) (i : Nat) (p : Position) :
    (app f as).at? (i :: p) = as[i]?.bind fun a => a.at? p := by
  rw [at?]
  cases as[i]? <;> rfl

theorem mem_nodesArgs {i : Nat} {as : List Term} {node : Position × Term} :
    node ∈ nodesArgs i as ↔
      ∃ j a, as[j]? = some a ∧ ∃ below ∈ a.nodes, underArg (i + j) below = node := by
  induction as generalizing i with
  | nil => simp [nodesArgs]
  | cons a as ih =>
    rw [nodesArgs, List.mem_append, List.mem_map, ih]
    constructor
    · rintro (h | ⟨j, b, hb, h⟩)
      · exact ⟨0, a, rfl, h⟩
      · rw [Nat.add_assoc, Nat.add_comm 1 j] at h
        exact ⟨j + 1, b, hb, h⟩
    · rintro ⟨j, b, hb, h⟩
      cases j with
      | zero =>
        obtain rfl : a = b := Option.some.inj hb
        exact Or.inl h
      | succ j =>
        rw [Nat.add_comm j 1, ← Nat.add_assoc] at h
        exact Or.inr ⟨j, b, hb, h⟩

/-- The nodes of a term are the subterms at its positions. -/
theorem mem_nodes {t : Term} {p : Position} {u : Term} : (p, u) ∈ t.nodes ↔ t.at? p = some u := by
  induction t using inductionOn generalizing p with
  | var v => cases p <;> simp [nodes, eq_comm]
  | const c => cases p <;> simp [nodes, eq_comm]
  | app f as ih =>
    rw [nodes, List.mem_cons, mem_nodesArgs]
    cases p with
    | nil => simp [underArg, eq_comm]
    | cons i p =>
      rw [at?_app_cons, Option.bind_eq_some_iff]
      constructor
      · rintro (h | ⟨j, a, ha, ⟨q, w⟩, hmem, h⟩)
        · simp at h
        · simp only [underArg, Nat.zero_add, Prod.mk.injEq, List.cons.injEq] at h
          obtain ⟨⟨rfl, rfl⟩, rfl⟩ := h
          exact ⟨a, ha, (ih a (List.mem_of_getElem? ha)).1 hmem⟩
      · rintro ⟨a, ha, hat⟩
        have hmem : (p, u) ∈ a.nodes := (ih a (List.mem_of_getElem? ha)).2 hat
        exact Or.inr ⟨i, a, ha, (p, u), hmem, by simp [underArg]⟩

/-- What is collected from the nodes of a term stands at its positions. -/
theorem mem_filterMap_nodes {β : Type} {g : Term → Option β} {t : Term} {x : β} :
    x ∈ t.nodes.filterMap (fun node => g node.2) ↔ ∃ p u, t.at? p = some u ∧ g u = some x := by
  simp only [List.mem_filterMap, Prod.exists, mem_nodes]

theorem mem_constants {t : Term} {c : String} :
    c ∈ t.constants ↔ ∃ p, t.at? p = some (.const c) := by
  have hroot : ∀ u : Term, u.rootConstant = some c ↔ u = .const c := fun u => by
    cases u <;> simp [rootConstant]
  refine (mem_filterMap_nodes (g := rootConstant)).trans ?_
  simp only [hroot, exists_eq_right]

theorem mem_symbols {t : Term} {f : Symbol} :
    f ∈ t.symbols ↔ ∃ p as, t.at? p = some (.app f as) := by
  have hroot : ∀ u : Term, u.rootSymbol = some f ↔ ∃ as, u = .app f as := fun u => by
    cases u <;> simp [rootSymbol]
  refine (mem_filterMap_nodes (g := rootSymbol)).trans (exists_congr fun p => ?_)
  constructor
  · rintro ⟨u, hat, hu⟩
    obtain ⟨as, rfl⟩ := (hroot u).1 hu
    exact ⟨as, hat⟩
  · rintro ⟨as, hat⟩
    exact ⟨_, hat, (hroot _).2 ⟨as, rfl⟩⟩

theorem mem_nullary {t : Term} {c : String} :
    c ∈ t.nullary ↔ ∃ p as, t.at? p = some (.app ⟨c, 0⟩ as) := by
  rw [← mem_symbols, nullary, List.mem_map]
  constructor
  · rintro ⟨f, hf, rfl⟩
    obtain ⟨hmem, harity⟩ := List.mem_filter.1 hf
    have hf : f = ⟨f.name, 0⟩ := Symbol.ext rfl (by simpa [Symbol.isConstant] using harity)
    exact hf ▸ hmem
  · exact fun h => ⟨⟨c, 0⟩, List.mem_filter.2 ⟨h, rfl⟩, rfl⟩

/-! ### Order of the nodes -/

theorem pairwise_nodesArgs {as : List Term}
    (ih : ∀ a ∈ as, a.nodes.Pairwise fun m n => m.1 < n.1) (i : Nat) :
    (nodesArgs i as).Pairwise fun m n => m.1 < n.1 := by
  induction as generalizing i with
  | nil => exact List.Pairwise.nil
  | cons a as ihas =>
    have hhead : (a.nodes.map (underArg i)).Pairwise fun m n => m.1 < n.1 := by
      rw [List.pairwise_map]
      refine (ih a List.mem_cons_self).imp fun h => ?_
      exact List.cons_lt_cons_iff.2 (Or.inr ⟨rfl, h⟩)
    have htail := ihas (fun x hx => ih x (List.mem_cons_of_mem a hx)) (i + 1)
    rw [nodesArgs, List.pairwise_append]
    refine ⟨hhead, htail, fun m hm n hn => ?_⟩
    obtain ⟨m', -, rfl⟩ := List.mem_map.1 hm
    obtain ⟨j, b, -, n', -, rfl⟩ := mem_nodesArgs.1 hn
    have hij : i < i + 1 + j := by omega
    exact List.cons_lt_cons_iff.2 (Or.inl hij)

/-- The nodes are listed in the lexicographic order of their positions. -/
theorem pairwise_nodes (t : Term) : t.nodes.Pairwise fun m n => m.1 < n.1 := by
  induction t using inductionOn with
  | var v => simp [nodes]
  | const c => simp [nodes]
  | app f as ih =>
    rw [nodes, List.pairwise_cons]
    refine ⟨fun n hn => ?_, pairwise_nodesArgs ih 0⟩
    obtain ⟨j, a, -, below, -, rfl⟩ := mem_nodesArgs.1 hn
    exact List.nil_lt_cons _ _

end Term

/-! ### Paths followed -/

namespace Position

theorem numbersFrom_path (p : Position) (rest : List Char) :
    Text.numbersFrom none ((path "" p).toList ++ rest) = p ++ Text.numbersFrom none rest := by
  induction p generalizing rest with
  | nil => rfl
  | cons i p ih =>
    have hpath : (path "" (i :: p)).toList =
        ".args[".toList ++ ((toString i).toList ++ ']' :: (path "" p).toList) := by
      have hstep : path "" (i :: p) = argPath "" i ++ path "" p := path_eq_append (argPath "" i) p
      simp [hstep, argPath]
    rw [hpath, List.append_assoc, Text.numbersFrom_skip (by decide), List.append_assoc,
      Text.numbersFrom_toString, List.cons_append, Text.numbersFrom_stop (by decide), ih]
    rfl

/-- The numbers written in a path, from a whole without numbers on, are the indices on the way. -/
theorem numbers_path {root : String} (hroot : Text.FreeOfDigits root.toList) (p : Position) :
    Text.numbers (path root p) = p := by
  have h := numbersFrom_path p []
  rw [List.append_nil] at h
  rw [Text.numbers, path_eq_append, String.toList_append, Text.numbersFrom_skip hroot, h]
  exact List.append_nil p

theorem path_injective (root : String) : Function.Injective (path root) := by
  intro p q h
  have hrest : path "" p = path "" q := by
    rw [path_eq_append root p, path_eq_append root q] at h
    exact String.append_right_inj root |>.1 h
  have hempty : Text.FreeOfDigits "".toList := by decide
  rw [← numbers_path hempty p, hrest, numbers_path hempty q]

end Position

end TermAlgebra
