import TermAlgebra.Operation.Term
import TermAlgebra.Proofs.Postcondition
import TermAlgebra.Proofs.SymbolTable

/-!
# Declaring symbols

A signature is declared by a list of symbols, and whatever else has a name can get into that list.
Only the last value of each name matters, but it counts in the place of the first: another value of
that name may be replaced by a symbol, and a symbol by another value.  The names are gone through in
the order in which they come up, and the first that stands for no symbol is refused
(`last_named_declared`).  That a key of a map may not be the name of its symbol never shows here.
-/

namespace TermAlgebra

/-- A fault of anything but the key of a symbol. -/
def Fault.SparesKeys (fault : Fault) : Prop := ∀ key name, fault ≠ .keyMismatch key name

namespace Signature

variable {xs : List Value} {table : List (String × Value)}

/-! ## Keys are names -/

theorem ensures_entriesByName (h : ∀ e ∈ table, e.2.name? = some e.1) (xs : List Value) :
    Ensures (entriesByName table xs) fun table => ∀ e ∈ table, e.2.name? = some e.1 := by
  induction xs generalizing table with
  | nil => exact .ok h
  | cons x xs ih =>
    rw [entriesByName, Value.expectName]
    cases hx : x.name? with
    | none => exact .error _
    | some name =>
      refine ih fun e he => ?_
      rcases Entries.mem_set he with rfl | he
      · exact hx
      · exact h e he

theorem failsWith_items (store : Store) (x : Value) :
    FailsWith (x.items store) Fault.SparesKeys := by
  unfold Value.items
  split
  · exact .ok _
  · exact .error fun _ _ => Fault.noConfusion

theorem failsWith_entriesByName (table : List (String × Value)) (xs : List Value) :
    FailsWith (entriesByName table xs) Fault.SparesKeys := by
  induction xs generalizing table with
  | nil => exact .ok table
  | cons x xs ih =>
    rw [entriesByName, Value.expectName]
    cases x.name? with
    | none => exact .error fun _ _ => Fault.noConfusion
    | some name => exact ih _

theorem failsWith_constantsOfValue (store : Store) (x : Value) :
    FailsWith (constantsOfValue store x) Fault.SparesKeys := by
  refine (failsWith_items store x).bind fun items _ => ?_
  split
  · exact .error fun _ _ => Fault.noConfusion
  · exact .ok _

theorem failsWith_symbolsOfEntries (store : Store) (h : ∀ e ∈ table, e.2.name? = some e.1) :
    FailsWith (symbolsOfEntries store (table.map fun e => (.text e.1, e.2))) Fault.SparesKeys := by
  rcases symbols_or_first_other h with ⟨fs, rfl⟩ | ⟨fs, e, rest, rfl, hother⟩
  · rw [symbolsOfEntries_map_entry]
    exact .ok fs
  · rw [symbolsOfEntries_of_first_other store fs hother]
    exact .error fun _ _ => Fault.noConfusion

theorem failsWith_ofValues (store : Store) (x y : Value) :
    FailsWith (ofValues store x y) Fault.SparesKeys := by
  refine (failsWith_items store x).bind fun xs _ => ?_
  refine (failsWith_entriesByName [] xs).bind fun table htable => ?_
  have hnames : ∀ e ∈ table, e.2.name? = some e.1 :=
    ensures_entriesByName (fun _ he => absurd he List.not_mem_nil) xs table htable
  refine (failsWith_constantsOfValue store y).bind fun constants _ => ?_
  exact (failsWith_symbolsOfEntries store hnames).bind fun symbols _ => .ok _

/-! ## What a table stands for -/

namespace ListsByName

theorem mem_of_lastNamed (h : ListsByName table xs) {name : String} {y : Value}
    (hy : Value.lastNamed xs name = some y) : (name, y) ∈ table := by
  rw [← h.lookup, List.lookup_eq_some_iff] at hy
  obtain ⟨before, after, rfl, -⟩ := hy
  exact List.mem_append_right before List.mem_cons_self

variable {fs : List Symbol}

theorem exists_symbol (h : ListsByName (fs.map Symbol.entry) xs) {name : String} {y : Value}
    (hy : Value.lastNamed xs name = some y) : ∃ f, y = .symbol f := by
  obtain ⟨f, -, hf⟩ := List.mem_map.1 (h.mem_of_lastNamed hy)
  exact ⟨f, (congrArg Prod.snd hf).symm⟩

theorem symbolNames {sig : Signature Value} (h : ListsByName (sig.symbols.map Symbol.entry) xs) :
    sig.symbolNames = (xs.filterMap Value.name?).eraseDups := by
  rw [← h.keys, List.map_map]
  rfl

theorem getSymbol {sig : Signature Value} (h : ListsByName (sig.symbols.map Symbol.entry) xs)
    (name : String) : (sig.getSymbol name).map Value.symbol = Value.lastNamed xs name := by
  rw [← h.lookup, Symbol.lookup_map_entry]
  rfl

end ListsByName

/-! ## The first name refused -/

/-- A name is the first, in the order in which they come up, whose last value is no symbol. -/
structure FirstRefused (xs : List Value) (name : String) (y : Value) : Prop where
  first : ∃ before after, (xs.filterMap Value.name?).eraseDups = before ++ name :: after ∧
    ∀ n ∈ before, ∃ f, Value.lastNamed xs n = some (.symbol f)
  last : Value.lastNamed xs name = some y
  other : ∀ f, y ≠ .symbol f

namespace FirstRefused

variable {name name' : String} {y y' : Value}

theorem not_symbol (h : FirstRefused xs name y) :
    ¬∃ f, Value.lastNamed xs name = some (.symbol f) := by
  rintro ⟨f, hf⟩
  exact h.other f (Option.some.inj (h.last.symm.trans hf))

theorem unique (h : FirstRefused xs name y) (h' : FirstRefused xs name' y') :
    name = name' ∧ y = y' := by
  obtain ⟨before, after, hsplit, hbefore⟩ := h.first
  obtain ⟨before', after', hsplit', hbefore'⟩ := h'.first
  obtain rfl : name = name' :=
    eq_of_first_other (hsplit.symm.trans hsplit') hbefore h.not_symbol hbefore' h'.not_symbol
  exact ⟨rfl, Option.some.inj (h.last.symm.trans h'.last)⟩

end FirstRefused

theorem ListsByName.firstRefused {fs : List Symbol} {e : String × Value}
    {rest : List (String × Value)} (h : ListsByName (fs.map Symbol.entry ++ e :: rest) xs)
    (he : ∀ f, e.2 ≠ .symbol f) : FirstRefused xs e.1 e.2 where
  first := by
    refine ⟨fs.map Symbol.name, rest.map Prod.fst, ?_, List.forall_mem_map.2 fun f hf => ⟨f, ?_⟩⟩
    · rw [← h.keys, List.map_append, List.map_map]
      rfl
    · exact h.lastNamed (List.mem_append_left _ (List.mem_map_of_mem hf))
  last := h.lastNamed (List.mem_append_right _ List.mem_cons_self)
  other := he

end Signature

namespace SignatureOperation

theorem run_ofSymbols (store : Store) (x y : Value) :
    ofSymbols.run store [x, y] =
      (Signature.ofValues store x y).map fun sig => .value (.signature sig) :=
  bind_pure_comp _ (Signature.ofValues store x y)

theorem run_ofSymbols_ne (store : Store) (args : List Value) (key name : String) :
    ofSymbols.run store args ≠ .error (.keyMismatch key name) := by
  have hargs : FailsWith (oneOrTwoArgs (.list []) args) Fault.SparesKeys := by
    unfold oneOrTwoArgs
    split
    · exact .ok _
    · exact .ok _
    · exact .error fun _ _ => Fault.noConfusion
  have hrun : FailsWith (ofSymbols.run store args) Fault.SparesKeys :=
    hargs.bind fun p _ => (Signature.failsWith_ofValues store p.1 p.2).bind fun sig _ => .pure _
  exact fun h => hrun _ h key name rfl

/-- A signature made from values with names and from names of constants.  It can be made if and only
if the last value of each name is a symbol.  Then it is made from a table of symbols under their own
names, the names are listed in the order in which they come up, and each stands for the last value
of that name.  Otherwise the first name whose last value is no symbol is refused, with the kind of
that value.  No key of a table is ever refused for not being the name of its symbol, whatever the
signature is made from. -/
theorem last_named_declared {store : Store} {xs : List Value} {x : Value} {cs : List String}
    (hxs : ∀ y ∈ xs, y.name? ≠ none) (hx : x.items? store = some (cs.map .text)) :
    ((∃ o, ofSymbols.run store [.list xs, x] = .ok o) ↔
      ∀ name y, Value.lastNamed xs name = some y → ∃ f, y = .symbol f) ∧
    (∀ o, ofSymbols.run store [.list xs, x] = .ok o → ∃ sig, o = .value (.signature sig) ∧
      Signature.entriesByName [] xs = .ok (sig.symbols.map fun f => (f.name, .symbol f)) ∧
      sig.symbolNames = (xs.filterMap Value.name?).eraseDups ∧
      ∀ name, (sig.getSymbol name).map Value.symbol = Value.lastNamed xs name) ∧
    (∀ fault, ofSymbols.run store [.list xs, x] = .error fault ↔
      ∃ name y, Signature.FirstRefused xs name y ∧ fault = .entryNotSymbol name y.kind) ∧
    (∀ fault, ofSymbols.run store [.list xs, x] = .error fault →
      fault.faultClass = .invalidArgument) ∧
    ∀ args key name, ofSymbols.run store args ≠ .error (.keyMismatch key name) := by
  obtain ⟨table, htable, hlists, ⟨fs, rfl, hvalues⟩ | ⟨fs, e, rest, rfl, hother, hvalues⟩⟩ :=
    Signature.ofValues_named hxs hx
  · rw [run_ofSymbols, hvalues]
    refine ⟨iff_of_true ⟨_, rfl⟩ fun name y hy => hlists.exists_symbol hy, ?_,
      fun fault => iff_of_false nofun ?_, nofun, run_ofSymbols_ne store⟩
    · intro o ho
      cases ho
      exact ⟨_, rfl, htable, hlists.symbolNames, hlists.getSymbol⟩
    · rintro ⟨name, y, hrefused, -⟩
      obtain ⟨f, rfl⟩ := hlists.exists_symbol hrefused.last
      exact hrefused.other f rfl
  · have hfirst := hlists.firstRefused hother
    rw [run_ofSymbols, hvalues]
    refine ⟨iff_of_false nofun fun hsymbols => ?_, nofun, fun fault => ⟨fun h => ?_, ?_⟩,
      fun fault h => ?_, run_ofSymbols_ne store⟩
    · obtain ⟨f, hf⟩ := hsymbols e.1 e.2 hfirst.last
      exact hother f hf
    · cases h
      exact ⟨e.1, e.2, hfirst, rfl⟩
    · rintro ⟨name, y, hrefused, rfl⟩
      obtain ⟨rfl, rfl⟩ := hfirst.unique hrefused
      rfl
    · cases h
      rfl

/-- `x`, `c`, `f` with one argument and `f` with two: that the first is a variable does not matter
where a symbol `x` follows, and then the last `f` is declared in the place of the first.  Where a
constant `c` follows as well, `c` is refused, though another variable comes after it. -/
theorem last_named_declared_masked :
    let store : Store := ⟨[], [], 0⟩
    let xs : List Value := [.ofVar ⟨"x"⟩, .symbol ⟨"c", 0⟩, .symbol ⟨"f", 1⟩, .symbol ⟨"f", 2⟩,
      .symbol ⟨"x", 0⟩]
    let ys : List Value := xs ++ [.term (.const "c"), .ofVar ⟨"y"⟩]
    (∃ sig, ofSymbols.run store [.list xs, .list [.text "a"]] = .ok (.value (.signature sig)) ∧
      sig.symbolNames = ["x", "c", "f"] ∧ sig.getSymbol "f" = some ⟨"f", 2⟩) ∧
    ofSymbols.run store [.list ys, .tuple [.text "a"]] = .error (.entryNotSymbol "c" .const) ∧
    (Fault.entryNotSymbol "c" .const).faultClass = .invalidArgument := by
  intro store xs ys
  have hxs : ∀ y ∈ xs, y.name? ≠ none := by decide
  have hys : ∀ y ∈ ys, y.name? ≠ none := by decide
  have hconstants : (Value.list [.text "a"]).items? store = some (["a"].map .text) := rfl
  have hconstants' : (Value.tuple [.text "a"]).items? store = some (["a"].map .text) := rfl
  obtain ⟨haccepted, hlisted, -⟩ := last_named_declared hxs hconstants
  obtain ⟨-, -, hrefused, hclass, -⟩ := last_named_declared hys hconstants'
  have hsymbols : ∀ name y, Value.lastNamed xs name = some y → ∃ f, y = .symbol f := by
    intro name y hy
    obtain ⟨hmem, hname⟩ := Value.mem_of_lastNamed hy
    simp only [xs, List.mem_cons, List.not_mem_nil, or_false] at hmem
    rcases hmem with rfl | rfl | rfl | rfl | rfl
    · cases hname
      exact ⟨⟨"x", 0⟩, (Option.some.inj hy).symm⟩
    all_goals exact ⟨_, rfl⟩
  have hfirst : Signature.FirstRefused ys "c" (.term (.const "c")) :=
    ⟨⟨["x"], ["f", "y"], by decide, List.forall_mem_singleton.2 ⟨⟨"x", 0⟩, rfl⟩⟩, rfl, nofun⟩
  have herror := (hrefused _).2 ⟨"c", _, hfirst, rfl⟩
  obtain ⟨o, ho⟩ := haccepted.2 hsymbols
  obtain ⟨sig, rfl, -, hnames, hget⟩ := hlisted o ho
  refine ⟨⟨sig, ho, hnames.trans (by decide), ?_⟩, herror, hclass _ herror⟩
  obtain ⟨f, hf, heq⟩ := Option.map_eq_some_iff.1 (hget "f")
  cases heq
  exact hf

end SignatureOperation

end TermAlgebra
