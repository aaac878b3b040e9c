import TermAlgebra.Proofs.Delimiter
import TermAlgebra.Term.Render

/-!
# Texts of skeletons

The text of a skeleton has its name in front, and the skeletons below it in brackets with commas
between them.  If brackets and commas occur in no name the text can be read in one way only
(`text_append_inj`).  This is about texts with something behind them: nothing, a closing bracket, a
comma or another mark ends a skeleton, so that neither a longer nor a shorter one can be read in
front of it.
-/

namespace TermAlgebra

namespace Skeleton

/-- To prove a statement of all skeletons, prove it of a node from the skeletons below it. -/
@[elab_as_elim]
theorem inductionOn {motive : Skeleton → Prop} (a : Skeleton) (leaf : ∀ name, motive (.leaf name))
    (node : ∀ name a as, motive a → (∀ b ∈ as, motive b) → motive (.node name a as)) : motive a :=
  @Skeleton.rec motive (fun as => ∀ b ∈ as, motive b)
    leaf (fun name a as ihFirst ihRest => node name a as ihFirst ihRest)
    (fun _ h => absurd h List.not_mem_nil)
    (fun _ _ ihHead ihTail _ h => (List.mem_cons.1 h).elim (· ▸ ihHead) (ihTail _)) a

/-! ## Texts of skeletons -/

mutual

/-- The written form of a skeleton. -/
def text : Skeleton → List Char
  | .leaf name => name.toList
  | .node name a as => name.toList ++ '(' :: (text a ++ restText as)

/-- The written form of the skeletons after the first, each behind a comma, up to the closing
bracket. -/
def restText : List Skeleton → List Char
  | [] => [')']
  | a :: as => ',' :: (text a ++ restText as)

end

mutual

/-- Every name in a skeleton, in preorder. -/
def names : Skeleton → List String
  | .leaf name => [name]
  | .node name a as => name :: (names a ++ namesRest as)

/-- Every name in the skeletons of a list. -/
def namesRest : List Skeleton → List String
  | [] => []
  | a :: as => names a ++ namesRest as

end

theorem namesRest_eq (as : List Skeleton) : namesRest as = as.flatMap names := by
  induction as with
  | nil => rfl
  | cons a as ih => simp [namesRest, ih]

/-- None of the given characters occurs in a name of a skeleton. -/
def NamesFreeOf (marks : List Char) (a : Skeleton) : Prop := ∀ n ∈ a.names, Text.FreeOf marks n

variable {marks rest rest' : List Char} {a b : Skeleton} {as bs : List Skeleton} {n n' : String}

theorem namesFreeOf_leaf : NamesFreeOf marks (.leaf n) ↔ Text.FreeOf marks n := by
  simp [NamesFreeOf, names]

theorem namesFreeOf_node : NamesFreeOf marks (.node n a as) ↔
    Text.FreeOf marks n ∧ NamesFreeOf marks a ∧ ∀ b ∈ as, NamesFreeOf marks b := by
  simp only [NamesFreeOf, names, namesRest_eq, List.forall_mem_cons, List.forall_mem_append,
    List.forall_mem_flatMap]

/-! ## Reading -/

/-- What may come behind a term: the term ends there. -/
def Ends (marks rest : List Char) : Prop := ∀ c ∈ rest.head?, c ∈ marks ∧ c ≠ '('

theorem ends_nil (marks : List Char) : Ends marks [] := by simp [Ends]

theorem ends_cons {c : Char} : Ends marks (c :: rest) ↔ c ∈ marks ∧ c ≠ '(' := by simp [Ends]

theorem Ends.stops (h : Ends marks rest) : Text.Stops marks rest := fun c hc => (h c hc).1

section

variable (hmarks : ['(', ')', ','] ⊆ marks)

include hmarks

theorem ends_restText (as : List Skeleton) (rest : List Char) :
    Ends marks (restText as ++ rest) := by
  cases as with
  | nil => exact ends_cons.2 ⟨hmarks (by simp), by decide⟩
  | cons a as => exact ends_cons.2 ⟨hmarks (by simp), by decide⟩

theorem stops_open (cs : List Char) : Text.Stops marks ('(' :: cs) :=
  Text.stops_cons.2 (hmarks (by simp))

/-- A name that ends a term is no name in front of arguments. -/
theorem leaf_append_ne_node {cs : List Char} (hn : Text.FreeOf marks n)
    (hn' : Text.FreeOf marks n') (hrest : Ends marks rest) :
    n.toList ++ rest ≠ n'.toList ++ '(' :: cs := by
  intro h
  obtain ⟨-, rfl⟩ := Text.toList_append_inj hn hn' hrest.stops (stops_open hmarks cs) h
  exact (ends_cons.1 hrest).2 rfl

/-- Skeletons after the first are read one by one, up to the closing bracket. -/
theorem restText_append_inj
    (ih : ∀ a ∈ as, ∀ b rest rest', NamesFreeOf marks b → Ends marks rest → Ends marks rest' →
      a.text ++ rest = b.text ++ rest' → a = b ∧ rest = rest')
    (hbs : ∀ b ∈ bs, NamesFreeOf marks b) (h : restText as ++ rest = restText bs ++ rest') :
    as = bs ∧ rest = rest' := by
  induction as generalizing bs with
  | nil =>
    cases bs with
    | nil => exact ⟨rfl, List.tail_eq_of_cons_eq h⟩
    | cons b bs => simp [restText] at h
  | cons a as ihas =>
    cases bs with
    | nil => simp [restText] at h
    | cons b bs =>
      have htext : a.text ++ (restText as ++ rest) = b.text ++ (restText bs ++ rest') := by
        simpa [restText] using h
      obtain ⟨hab, hrests⟩ := ih a List.mem_cons_self b _ _ (hbs b List.mem_cons_self)
        (ends_restText hmarks as rest) (ends_restText hmarks bs rest') htext
      obtain ⟨hasbs, hrest⟩ := ihas (fun x hx => ih x (List.mem_cons_of_mem a hx))
        (fun x hx => hbs x (List.mem_cons_of_mem b hx)) hrests
      exact ⟨by rw [hab, hasbs], hrest⟩

/-- Where the text of a skeleton begins and what comes behind it ends a term, both are
determined. -/
theorem text_append_inj (ha : NamesFreeOf marks a) (hb : NamesFreeOf marks b)
    (hrest : Ends marks rest) (hrest' : Ends marks rest')
    (h : a.text ++ rest = b.text ++ rest') : a = b ∧ rest = rest' := by
  induction a using inductionOn generalizing b rest rest' with
  | leaf n =>
    have hn := namesFreeOf_leaf.1 ha
    cases b with
    | leaf n' =>
      have hn' := namesFreeOf_leaf.1 hb
      obtain ⟨rfl, hrests⟩ := Text.toList_append_inj hn hn' hrest.stops hrest'.stops h
      exact ⟨rfl, hrests⟩
    | node n' b bs =>
      have hn' := (namesFreeOf_node.1 hb).1
      have hnames : n.toList ++ rest = n'.toList ++ '(' :: (b.text ++ restText bs ++ rest') := by
        simpa [text] using h
      exact absurd hnames (leaf_append_ne_node hmarks hn hn' hrest)
  | node n a as iha ihas =>
    obtain ⟨hn, ha, has⟩ := namesFreeOf_node.1 ha
    cases b with
    | leaf n' =>
      have hn' := namesFreeOf_leaf.1 hb
      have hnames : n'.toList ++ rest' = n.toList ++ '(' :: (a.text ++ restText as ++ rest) := by
        simpa [text] using h.symm
      exact absurd hnames (leaf_append_ne_node hmarks hn' hn hrest')
    | node n' b bs =>
      obtain ⟨hn', hfirst, hbs⟩ := namesFreeOf_node.1 hb
      have hnames : n.toList ++ '(' :: (a.text ++ (restText as ++ rest)) =
          n'.toList ++ '(' :: (b.text ++ (restText bs ++ rest')) := by
        simpa [text] using h
      obtain ⟨rfl, hargs⟩ := Text.toList_append_inj hn hn' (stops_open hmarks _)
        (stops_open hmarks _) hnames
      obtain ⟨rfl, hrests⟩ := iha ha hfirst (ends_restText hmarks as rest)
        (ends_restText hmarks bs rest') (List.tail_eq_of_cons_eq hargs)
      have ihrest : ∀ x ∈ as, ∀ y rest rest', NamesFreeOf marks y → Ends marks rest →
          Ends marks rest' → x.text ++ rest = y.text ++ rest' → x = y ∧ rest = rest' :=
        fun x hx y _ _ hy => ihas x hx (has x hx) hy
      obtain ⟨rfl, hrest⟩ := restText_append_inj hmarks ihrest hbs hrests
      exact ⟨rfl, hrest⟩

end

end Skeleton

end TermAlgebra
