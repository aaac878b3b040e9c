import TermAlgebra.Operation.Term
import TermAlgebra.Proofs.SymbolTable
import TermAlgebra.Proofs.TermReport

/-!
# The signature of a term

A term can be checked against the signature of the symbols and constants that it uses itself.  Only
the last of its symbols with one name is declared there (`lastNamed`), so what is wrong are the uses
of the name with another arity than at its last place (`own_signature_misuses`), and nothing is
wrong if each name is used with one arity throughout.
-/

namespace TermAlgebra

variable {t : Term}

namespace Term

/-! ## Last uses -/

/-- What is collected last from the nodes of a term stands at a position after which nothing is. -/
theorem getLast?_filterMap_nodes {β : Type} {g : Term → Option β} {x : β} :
    (t.nodes.filterMap fun node => g node.2).getLast? = some x ↔
      ∃ p u, t.at? p = some u ∧ g u = some x ∧
        ∀ q w, t.at? q = some w → g w ≠ none → ¬p < q := by
  have horder : t.nodes.reverse.Pairwise fun m n => n.1 < m.1 :=
    List.pairwise_reverse.2 t.pairwise_nodes
  have hmem : ∀ q w, (q, w) ∈ t.nodes.reverse ↔ t.at? q = some w := fun q w => by
    rw [List.mem_reverse, mem_nodes]
  -- Read from the end, the node sought is the first at which anything is collected.
  rw [List.getLast?_filterMap, List.findSome?_eq_some_iff]
  constructor
  · rintro ⟨after, ⟨p, u⟩, before, hnodes, hu, hafter⟩
    rw [hnodes] at horder hmem
    obtain ⟨-, horder, -⟩ := List.pairwise_append.1 horder
    refine ⟨p, u, (hmem p u).1 (List.mem_append_right after List.mem_cons_self), hu,
      fun q w hw hsome hlt => ?_⟩
    rcases List.mem_append.1 ((hmem q w).2 hw) with h | h
    · exact hsome (hafter _ h)
    · rcases List.mem_cons.1 h with h | h
      · obtain rfl : q = p := congrArg Prod.fst h
        exact List.lt_irrefl q hlt
      · exact List.lt_asymm hlt (List.rel_of_pairwise_cons horder h)
  · rintro ⟨p, u, hat, hu, hmax⟩
    obtain ⟨after, before, hnodes⟩ := List.append_of_mem ((hmem p u).2 hat)
    rw [hnodes] at horder hmem
    obtain ⟨-, -, horder⟩ := List.pairwise_append.1 horder
    refine ⟨after, (p, u), before, hnodes, hu, fun ⟨q, w⟩ h => ?_⟩
    have hw : t.at? q = some w := (hmem q w).1 (List.mem_append_left _ h)
    have hlt : p < q := horder _ h _ List.mem_cons_self
    exact Decidable.byContradiction fun hsome => hmax q w hw hsome hlt

/-- The symbol of a name at the last place, in preorder, where one of that name is applied. -/
def lastNamed (t : Term) (name : String) : Option Symbol :=
  (t.symbols.filter fun f => f.name == name).getLast?

/-- The symbol at the root, if it has the name. -/
def rootNamed (name : String) (u : Term) : Option Symbol :=
  u.rootSymbol.filter fun f => f.name == name

theorem rootNamed_eq_some_iff {name : String} {u : Term} {f : Symbol} :
    u.rootNamed name = some f ↔ f.name = name ∧ ∃ as, u = .app f as := by
  cases u with
  | var v => simp [rootNamed, rootSymbol]
  | const c => simp [rootNamed, rootSymbol]
  | app g as =>
    rw [rootNamed, rootSymbol, Option.filter_eq_some_iff]
    simp only [Option.some.injEq, beq_iff_eq, app.injEq]
    constructor
    · rintro ⟨rfl, h⟩
      exact ⟨h, as, rfl, rfl⟩
    · rintro ⟨h, _, rfl, -⟩
      exact ⟨rfl, h⟩

/-- In preorder, no node that applies a symbol of the name comes after the place of the last. -/
theorem lastNamed_eq_some_iff {name : String} {g : Symbol} :
    t.lastNamed name = some g ↔ g.name = name ∧ ∃ p as, t.at? p = some (.app g as) ∧
      ∀ q f bs, t.at? q = some (.app f bs) → f.name = name → ¬p < q := by
  have hlast : t.lastNamed name =
      (t.nodes.filterMap fun node => node.2.rootNamed name).getLast? := by
    rw [lastNamed, symbols, List.filter_filterMap]
    rfl
  rw [hlast, getLast?_filterMap_nodes]
  constructor
  · rintro ⟨p, u, hat, hu, hmax⟩
    obtain ⟨hname, as, rfl⟩ := rootNamed_eq_some_iff.1 hu
    refine ⟨hname, p, as, hat, fun q f bs hbs hf => hmax q _ hbs ?_⟩
    rw [rootNamed_eq_some_iff.2 ⟨hf, bs, rfl⟩]
    exact Option.some_ne_none f
  · rintro ⟨hname, p, as, hat, hmax⟩
    refine ⟨p, _, hat, rootNamed_eq_some_iff.2 ⟨hname, as, rfl⟩, fun q w hw hsome => ?_⟩
    obtain ⟨f, hroot⟩ := Option.ne_none_iff_exists'.1 hsome
    obtain ⟨hf, bs, rfl⟩ := rootNamed_eq_some_iff.1 hroot
    exact hmax q f bs hw hf

theorem exists_lastNamed {f : Symbol} (h : f ∈ t.symbols) : ∃ g, t.lastNamed f.name = some g := by
  have hne : t.symbols.filter (fun g => g.name == f.name) ≠ [] :=
    List.ne_nil_of_mem (List.mem_filter.2 ⟨h, beq_self_eq_true f.name⟩)
  exact ⟨_, List.getLast?_eq_some_getLast hne⟩

/-- What is wrong at a node: the last symbol of the name has another arity. -/
def overruled? (t : Term) : Term → Option Misuse
  | .app f _ =>
    (t.lastNamed f.name).bind fun g =>
      if g.arity ≠ f.arity then some (.otherArity f g.arity) else none
  | _ => none

theorem overruled?_app_eq_none_iff {f g : Symbol} {as : List Term}
    (h : t.lastNamed f.name = some g) : t.overruled? (.app f as) = none ↔ g.arity = f.arity := by
  rw [overruled?, h, Option.bind_some, ite_eq_right_iff]
  simp

/-- No symbol is overruled if and only if each name has one arity. -/
theorem overruled?_eq_none_iff : (∀ node ∈ t.nodes, t.overruled? node.2 = none) ↔
    ∀ p q f g as bs, t.at? p = some (.app f as) → t.at? q = some (.app g bs) →
      f.name = g.name → f.arity = g.arity := by
  constructor
  · intro h p q f g as bs hf hg hname
    obtain ⟨last, hlast⟩ := exists_lastNamed (mem_symbols.2 ⟨p, as, hf⟩)
    have harity : last.arity = f.arity :=
      (overruled?_app_eq_none_iff hlast).1 (h _ (mem_nodes.2 hf))
    rw [hname] at hlast
    rw [← harity]
    exact (overruled?_app_eq_none_iff hlast).1 (h _ (mem_nodes.2 hg))
  · rintro h ⟨p, u⟩ hnode
    have hat := mem_nodes.1 hnode
    cases u with
    | var v => rfl
    | const c => rfl
    | app f as =>
      obtain ⟨last, hlast⟩ := exists_lastNamed (mem_symbols.2 ⟨p, as, hat⟩)
      obtain ⟨hname, q, bs, hq, -⟩ := lastNamed_eq_some_iff.1 hlast
      exact (overruled?_app_eq_none_iff hlast).2 (h q p last f bs as hq hat hname)

end Term

/-! ## The signature of a term -/

/-- A signature that declares what a term uses, and of symbols with one name the last. -/
structure Signature.OwnOf (sig : Signature Value) (t : Term) : Prop where
  symbols : ∀ name, sig.getSymbol name = t.lastNamed name
  constants : ∀ c ∈ t.constants, .text c ∈ sig.constants

namespace Signature.OwnOf

variable {store : Store} {x : Value} {cs : List String} {sig : Signature Value}

theorem exists_run (hx : x.items? store = some (cs.map .text)) (hcs : t.constants ⊆ cs) :
    ∃ sig, SignatureOperation.ofSymbols.run store [.list (t.symbols.map .symbol), x] =
      .ok (.value (.signature sig)) ∧ sig.OwnOf t := by
  obtain ⟨sig, hsig, hconstants, hsymbols⟩ := ofValues_symbols hx t.symbols
  refine ⟨sig, ?_, fun name => ?_, fun c hc => ?_⟩
  · simp only [SignatureOperation.run, oneOrTwoArgs, hsig, bind, Except.bind, pure, Except.pure]
  · rw [hsymbols, Term.lastNamed, List.getLast?_filter]
  · rw [hconstants]
    exact List.mem_map_of_mem (List.mem_eraseDups.2 (hcs hc))

/-- All that can be wrong at a node of the term is that the last symbol of the name overrules its
own. -/
theorem misuse?_eq (h : sig.OwnOf t) {node : Position × Term} (hnode : node ∈ t.nodes) :
    sig.misuse? node.2 = t.overruled? node.2 := by
  obtain ⟨p, u⟩ := node
  have hat := Term.mem_nodes.1 hnode
  cases u with
  | var v => rfl
  | const c =>
    refine misuse?_const_eq_none_iff.2 fun _ => ⟨.text c, ?_, rfl⟩
    exact h.constants c (Term.mem_constants.2 ⟨p, hat⟩)
  | app f as =>
    obtain ⟨g, hg⟩ := Term.exists_lastNamed (Term.mem_symbols.2 ⟨p, as, hat⟩)
    rw [misuse?, Term.overruled?, h.symbols, hg]
    rfl

end Signature.OwnOf

/-- A term checked against the signature of its own symbols, in preorder, and of its own constants,
in whatever collection they come.  That signature can always be made.  The errors are one for each
node at which a symbol is applied whose name has another arity at the last place where it is
applied.  So the term is well formed if and only if no name has two arities. -/
theorem own_signature_misuses {store : Store} {t : Term} {x : Value} {cs : List String}
    (hx : x.items? store = some (cs.map .text)) (hcs : t.constants ⊆ cs) :
    ∃ sig, SignatureOperation.ofSymbols.run store [.list (t.symbols.map .symbol), x] =
        .ok (.value (.signature sig)) ∧
      (∀ name g, t.lastNamed name = some g ↔ g.name = name ∧ ∃ p as, t.at? p = some (.app g as) ∧
        ∀ q f bs, t.at? q = some (.app f bs) → f.name = name → ¬p < q) ∧
      (checkTerm t sig).errors = t.nodes.filterMap (fun node =>
        (t.overruled? node.2).map (Misuse.diagnostic (Position.path "term" node.1))) ∧
      ((checkTerm t sig).isWellFormed = true ↔
        ∀ p q f g as bs, t.at? p = some (.app f as) → t.at? q = some (.app g bs) →
          f.name = g.name → f.arity = g.arity) := by
  obtain ⟨sig, hrun, hown⟩ := Signature.OwnOf.exists_run hx hcs
  refine ⟨sig, hrun, fun name g => Term.lastNamed_eq_some_iff, ?_, ?_⟩
  · rw [errors_checkTerm]
    exact List.filterMap_congr fun node hnode => by rw [Signature.errorAt, hown.misuse?_eq hnode]
  · rw [Substitution.isWellFormed_checkTerm_iff, ← Term.overruled?_eq_none_iff]
    exact forall₂_congr fun node hnode => by rw [hown.misuse?_eq hnode]

/-- `h(f(a), h(f(x, b), f(b)))`: the name `f` counts as at its last place, and it is used otherwise
in between.  The constants come as a set. -/
theorem own_signature_misuses_between :
    let store : Store := ⟨[], [], 0⟩
    let f : Symbol := ⟨"f", 1⟩
    let t : Term := .app ⟨"h", 2⟩ [.app f [.const "a"], .app ⟨"h", 2⟩
      [.app ⟨"f", 2⟩ [.var ⟨"x"⟩, .const "b"], .app f [.const "b"]]]
    (Value.nameSet ["b", "a"]).items? store = some (["a", "b"].map .text) ∧
    t.constants ⊆ ["a", "b"] ∧
    ∃ sig, SignatureOperation.ofSymbols.run store
        [.list (t.symbols.map .symbol), .nameSet ["b", "a"]] = .ok (.value (.signature sig)) ∧
      (checkTerm t sig).errors =
        [(Misuse.otherArity ⟨"f", 2⟩ 1).diagnostic "term.args[1].args[0]"] ∧
      (checkTerm t sig).isWellFormed = false := by
  intro store f t
  have hx : (Value.nameSet ["b", "a"]).items? store = some (["a", "b"].map .text) := by
    simp [Value.items?, sortedNames, List.mergeSort]
  have hcs : t.constants ⊆ ["a", "b"] := by decide
  obtain ⟨sig, hrun, -, herrors, hwf⟩ := own_signature_misuses hx hcs
  refine ⟨hx, hcs, sig, hrun, ?_, ?_⟩
  · rw [herrors]
    decide
  · rw [← Bool.not_eq_true, hwf]
    intro h
    exact absurd (h [0] [1, 0] f ⟨"f", 2⟩ _ _ rfl rfl rfl) (by decide)

end TermAlgebra
