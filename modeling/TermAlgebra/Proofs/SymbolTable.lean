import TermAlgebra.Proofs.Repetition
import TermAlgebra.Proofs.TextValue
import TermAlgebra.Value.Build

/-!
# Signatures from lists

A signature made from a list declares each symbol under its own name, by way of a table in which a
value replaces those of its name that were set before.  So a name stands for the last value of that
name, in the place of the first (`exists_table`), and what is refused is the first name in the table
that stands for no symbol (`ofValues_named`).  A list of symbols is never refused
(`ofValues_symbols`).
-/

namespace TermAlgebra

/-! ## Tables -/

namespace Entries

variable {κ α : Type} [BEq κ] [LawfulBEq κ]

/-- A key that was set has its new value, and every other the one that it had. -/
theorem lookup_set (k k' : κ) (x : α) (es : List (κ × α)) :
    (set (· == ·) k x es).lookup k' = if k' == k then some x else es.lookup k' := by
  induction es with
  | nil =>
    rw [set, List.lookup_cons]
    cases k' == k <;> rfl
  | cons e es ih =>
    rw [set]
    by_cases he : (e.1 == k) = true
    · rw [if_pos he, List.lookup_cons, List.lookup_cons, eq_of_beq he]
      cases k' == k <;> rfl
    · rw [if_neg he, List.lookup_cons, List.lookup_cons, ih]
      by_cases hk' : (k' == e.1) = true
      · have hk : ¬(k' == k) = true := eq_of_beq hk' ▸ he
        rw [hk', if_neg hk, if_neg hk]
      · rw [Bool.eq_false_of_not_eq_true hk']

theorem lookup_foldl_set (es table : List (κ × α)) (k : κ) :
    (es.foldl (fun table e => set (· == ·) e.1 e.2 table) table).lookup k =
      (es.reverse.lookup k).or (table.lookup k) := by
  induction es generalizing table with
  | nil => rfl
  | cons e es ih =>
    have hlast : [e].lookup k = if k == e.1 then some e.2 else none := by
      rw [List.lookup_cons]
      cases k == e.1 <;> rfl
    rw [List.foldl_cons, ih, lookup_set, List.reverse_cons, List.lookup_append, Option.or_assoc,
      hlast]
    split <;> rfl

/-- The last value that a key was set to counts. -/
theorem lookup_ofList (es : List (κ × α)) (k : κ) :
    (ofList (· == ·) es).lookup k = es.reverse.lookup k := by
  rw [ofList, lookup_foldl_set]
  exact Option.or_none

theorem mem_set {k : κ} {x : α} {es : List (κ × α)} {e : κ × α}
    (h : e ∈ set (· == ·) k x es) : e = (k, x) ∨ e ∈ es := by
  induction es with
  | nil => exact Or.inl (List.mem_singleton.1 h)
  | cons e' es ih =>
    rw [set] at h
    split at h
    · next he =>
      rw [eq_of_beq he] at h
      exact (List.mem_cons.1 h).imp_right (List.mem_cons_of_mem e')
    · rcases List.mem_cons.1 h with rfl | h
      · exact Or.inr List.mem_cons_self
      · exact (ih h).imp_right (List.mem_cons_of_mem e')

theorem lookup_of_mem {es : List (κ × α)} (h : (es.map Prod.fst).Nodup) {e : κ × α} (he : e ∈ es) :
    es.lookup e.1 = some e.2 := by
  obtain ⟨before, after, rfl⟩ := List.append_of_mem he
  refine List.lookup_eq_some_iff.2 ⟨before, after, rfl, fun e' he' => bne_iff_ne.2 fun heq => ?_⟩
  rw [List.map_append, List.nodup_append] at h
  exact h.2.2 e'.1 (List.mem_map_of_mem he') e.1 (by simp) heq.symm

/-- A key that was there keeps its place, and a new one comes last. -/
theorem map_fst_set (k : κ) (x : α) (es : List (κ × α)) :
    (set (· == ·) k x es).map Prod.fst =
      if k ∈ es.map Prod.fst then es.map Prod.fst else es.map Prod.fst ++ [k] := by
  induction es with
  | nil => rfl
  | cons e es ih =>
    rw [set]
    by_cases he : (e.1 == k) = true
    · rw [if_pos he, List.map_cons, List.map_cons, eq_of_beq he, if_pos List.mem_cons_self]
    · have hk : k ∈ e.1 :: es.map Prod.fst ↔ k ∈ es.map Prod.fst := by
        rw [List.mem_cons, or_iff_right fun hk => he (beq_iff_eq.2 hk.symm)]
      rw [if_neg he, List.map_cons, List.map_cons, ih]
      simp only [hk]
      split <;> rfl

end Entries

/-- The keys of a table stand in the order in which they came up. -/
theorem Entries.map_fst_ofList {κ α : Type} [DecidableEq κ] (es : List (κ × α)) :
    (ofList (· == ·) es).map Prod.fst = (es.map Prod.fst).eraseDups := by
  induction es using List.reverseRecOn with
  | nil => rfl
  | append_singleton es e ih =>
    have hlast : ofList (· == ·) (es ++ [e]) = set (· == ·) e.1 e.2 (ofList (· == ·) es) :=
      List.foldl_append
    rw [hlast, map_fst_set, ih, List.map_append, List.map_singleton]
    simp only [List.mem_eraseDups]
    split
    · next h => exact (eraseDups_concat_of_mem h).symm
    · next h => exact (eraseDups_concat_of_not_mem h).symm

/-! ## Values under their names -/

namespace Value

/-- A value together with its name, if it has one. -/
def withName? (x : Value) : Option (String × Value) := x.name?.map fun name => (name, x)

/-- The last of several values with a name. -/
def lastNamed (xs : List Value) (name : String) : Option Value :=
  (xs.filter fun x => x.name? == some name).getLast?

theorem mem_of_lastNamed {xs : List Value} {name : String} {x : Value}
    (h : lastNamed xs name = some x) : x ∈ xs ∧ x.name? = some name := by
  obtain ⟨hmem, hname⟩ := List.mem_filter.1 (List.mem_of_getLast? h)
  exact ⟨hmem, eq_of_beq hname⟩

theorem map_fst_filterMap_withName? (xs : List Value) :
    (xs.filterMap withName?).map Prod.fst = xs.filterMap name? := by
  rw [List.map_filterMap]
  refine List.filterMap_congr fun x _ => ?_
  rw [withName?, Option.map_map]
  exact Option.map_id_apply

theorem lookup_filterMap_withName? (xs : List Value) (name : String) :
    (xs.filterMap withName?).lookup name = xs.find? fun x => x.name? == some name := by
  induction xs with
  | nil => rfl
  | cons x xs ih =>
    rw [List.find?_cons, List.filterMap_cons, withName?]
    cases hx : x.name? with
    | none => exact ih
    | some name' =>
      have hcomm : (some name' == some name) = (name == name') := BEq.comm
      rw [Option.map_some, List.lookup_cons, ih, hcomm]

end Value

/-- A symbol as it is listed under its name. -/
def Symbol.entry (f : Symbol) : String × Value := (f.name, .symbol f)

theorem Symbol.lookup_map_entry (fs : List Symbol) (name : String) :
    (fs.map entry).lookup name = (fs.find? fun f => f.name == name).map Value.symbol := by
  induction fs with
  | nil => rfl
  | cons f fs ih =>
    rw [List.map_cons, List.lookup_cons, List.find?_cons, ih]
    have hcomm : (name == f.entry.1) = (f.name == name) := BEq.comm
    rw [hcomm]
    cases f.name == name <;> rfl

namespace Signature

variable {store : Store} {xs : List Value} {table : List (String × Value)}

/-- A table that lists the last value of each name, in the order in which the names come up. -/
structure ListsByName (table : List (String × Value)) (xs : List Value) : Prop where
  keys : table.map Prod.fst = (xs.filterMap Value.name?).eraseDups
  lookup : ∀ name, table.lookup name = Value.lastNamed xs name

theorem ListsByName.lastNamed (h : ListsByName table xs) {e : String × Value} (he : e ∈ table) :
    Value.lastNamed xs e.1 = some e.2 := by
  have hnodup : (table.map Prod.fst).Nodup := h.keys ▸ nodup_eraseDups _
  rw [← h.lookup, Entries.lookup_of_mem hnodup he]

theorem ListsByName.name? (h : ListsByName table xs) {e : String × Value} (he : e ∈ table) :
    e.2.name? = some e.1 :=
  (Value.mem_of_lastNamed (h.lastNamed he)).2

theorem entriesByName_eq (h : ∀ x ∈ xs, x.name? ≠ none) (table : List (String × Value)) :
    entriesByName table xs = .ok ((xs.filterMap Value.withName?).foldl
      (fun table e => Entries.set (· == ·) e.1 e.2 table) table) := by
  induction xs generalizing table with
  | nil => rfl
  | cons x xs ih =>
    obtain ⟨hx, hxs⟩ := List.forall_mem_cons.1 h
    obtain ⟨name, hname⟩ := Option.ne_none_iff_exists'.1 hx
    have hexpect : x.expectName = .ok name := by rw [Value.expectName, hname]
    have hpair : x.withName? = some (name, x) := by rw [Value.withName?, hname, Option.map_some]
    rw [entriesByName, hexpect, List.filterMap_cons, hpair]
    exact ih hxs _

/-- Values that all have names can be listed by them. -/
theorem exists_table (h : ∀ x ∈ xs, x.name? ≠ none) :
    ∃ table, entriesByName [] xs = .ok table ∧ ListsByName table xs := by
  refine ⟨Entries.ofList (· == ·) (xs.filterMap Value.withName?), entriesByName_eq h [], ?_, ?_⟩
  · rw [Entries.map_fst_ofList, Value.map_fst_filterMap_withName?]
  · intro name
    rw [Entries.lookup_ofList, ← List.filterMap_reverse, Value.lookup_filterMap_withName?,
      Value.lastNamed, List.getLast?_filter]

/-! ## Declared symbols -/

/-- A table lists nothing but symbols, or there is a first value in it that is none. -/
theorem symbols_or_first_other (h : ∀ e ∈ table, e.2.name? = some e.1) :
    (∃ fs : List Symbol, table = fs.map Symbol.entry) ∨
      ∃ (fs : List Symbol) (e : String × Value) (rest : List (String × Value)),
        table = fs.map Symbol.entry ++ e :: rest ∧ ∀ f, e.2 ≠ .symbol f := by
  refine (map_or_first_other Symbol.entry table).imp_right ?_
  rintro ⟨fs, e, rest, rfl, hother⟩
  refine ⟨fs, e, rest, rfl, fun f hf => hother f ?_⟩
  have hname := h e (List.mem_append_right _ List.mem_cons_self)
  rw [hf] at hname
  exact Prod.ext (Option.some.inj hname).symm hf

theorem symbolOfEntry_entry (store : Store) (f : Symbol) :
    symbolOfEntry store (.text f.entry.1, f.entry.2) = .ok f := by
  refine if_pos ?_
  simp [Value.same, Value.alike, Value.alikeWith, Symbol.entry]

theorem symbolOfEntry_of_ne {e : String × Value} (h : ∀ f, e.2 ≠ .symbol f) :
    symbolOfEntry store (.text e.1, e.2) = .error (.entryNotSymbol e.1 e.2.kind) := by
  unfold symbolOfEntry
  split
  · next heq => exact absurd (congrArg Prod.snd heq) (h _)
  · next heq =>
    cases heq
    rfl

theorem symbolsOfEntries_map_entry (store : Store) (fs : List Symbol) :
    symbolsOfEntries store ((fs.map Symbol.entry).map fun e => (.text e.1, e.2)) = .ok fs := by
  induction fs with
  | nil => rfl
  | cons f fs ih =>
    rw [List.map_cons, List.map_cons, symbolsOfEntries, symbolOfEntry_entry, ih]
    rfl

theorem symbolsOfEntries_of_first_other (store : Store) (fs : List Symbol) {e : String × Value}
    (he : ∀ f, e.2 ≠ .symbol f) (rest : List (String × Value)) :
    symbolsOfEntries store ((fs.map Symbol.entry ++ e :: rest).map fun e => (.text e.1, e.2)) =
      .error (.entryNotSymbol e.1 e.2.kind) := by
  induction fs with
  | nil =>
    rw [List.map_nil, List.nil_append, List.map_cons, symbolsOfEntries, symbolOfEntry_of_ne he]
    rfl
  | cons f fs ih =>
    rw [List.map_cons, List.cons_append, List.map_cons, symbolsOfEntries, symbolOfEntry_entry, ih]
    rfl

theorem constantsOfValue_text {x : Value} {cs : List String}
    (h : x.items? store = some (cs.map .text)) :
    constantsOfValue store x = .ok (cs.eraseDups.map .text) := by
  have hitems : x.items store = .ok (cs.map .text) := by rw [Value.items, h]
  simp only [constantsOfValue, hitems, bind, Except.bind, Value.unhashableItem?_map_text,
    Value.eraseDups_map_text, pure, Except.pure]

section

variable {x : Value} {cs : List String}

theorem ofValues_of_table (hx : x.items? store = some (cs.map .text))
    (htable : entriesByName [] xs = .ok table) :
    ofValues store (.list xs) x =
      (symbolsOfEntries store (table.map fun e => (.text e.1, e.2))).map
        fun fs => ⟨fs, cs.eraseDups.map .text⟩ := by
  have hitems : (Value.list xs).items store = .ok xs := rfl
  simp only [ofValues, ofEntries, hitems, htable, constantsOfValue_text hx, Value.mapEntries, bind,
    Except.bind, pure, Except.pure]
  cases symbolsOfEntries store (table.map fun e => (.text e.1, e.2)) <;> rfl

/-- Values with names and names of constants make a signature, or the first name that stands for no
symbol is refused. -/
theorem ofValues_named (hxs : ∀ y ∈ xs, y.name? ≠ none)
    (hx : x.items? store = some (cs.map .text)) :
    ∃ table, entriesByName [] xs = .ok table ∧ ListsByName table xs ∧
      ((∃ fs : List Symbol, table = fs.map Symbol.entry ∧
        ofValues store (.list xs) x = .ok ⟨fs, cs.eraseDups.map .text⟩) ∨
      ∃ (fs : List Symbol) (e : String × Value) (rest : List (String × Value)),
        table = fs.map Symbol.entry ++ e :: rest ∧ (∀ f, e.2 ≠ .symbol f) ∧
          ofValues store (.list xs) x = .error (.entryNotSymbol e.1 e.2.kind)) := by
  obtain ⟨table, htable, hlists⟩ := exists_table hxs
  refine ⟨table, htable, hlists, ?_⟩
  rcases symbols_or_first_other fun e he => hlists.name? he with
    ⟨fs, rfl⟩ | ⟨fs, e, rest, rfl, hother⟩
  · refine .inl ⟨fs, rfl, ?_⟩
    rw [ofValues_of_table hx htable, symbolsOfEntries_map_entry]
    rfl
  · refine .inr ⟨fs, e, rest, rfl, hother, ?_⟩
    rw [ofValues_of_table hx htable, symbolsOfEntries_of_first_other store fs hother]
    rfl

/-- Symbols and names of constants always make a signature.  Of symbols with one name the last is
declared. -/
theorem ofValues_symbols (hx : x.items? store = some (cs.map .text)) (fs : List Symbol) :
    ∃ sig, ofValues store (.list (fs.map .symbol)) x = .ok sig ∧
      sig.constants = cs.eraseDups.map .text ∧
      ∀ name, sig.getSymbol name = fs.reverse.find? fun f => f.name == name := by
  have hnamed : ∀ y ∈ fs.map Value.symbol, y.name? ≠ none :=
    List.forall_mem_map.2 fun f _ => Option.some_ne_none f.name
  obtain ⟨table, -, hlists, hcases⟩ := ofValues_named hnamed hx
  rcases hcases with ⟨gs, rfl, hok⟩ | ⟨gs, e, rest, rfl, hother, -⟩
  · refine ⟨_, hok, rfl, fun name => ?_⟩
    have hlookup := hlists.lookup name
    rw [Symbol.lookup_map_entry, Value.lastNamed, List.getLast?_filter, ← List.map_reverse,
      List.find?_map] at hlookup
    exact Option.map_injective (fun _ _ => Value.symbol.inj) hlookup
  · have hlast := hlists.lastNamed (List.mem_append_right _ List.mem_cons_self)
    obtain ⟨f, -, hf⟩ := List.mem_map.1 (Value.mem_of_lastNamed hlast).1
    exact absurd hf.symm (hother f)

end

end Signature

end TermAlgebra
