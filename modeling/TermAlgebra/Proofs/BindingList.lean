import TermAlgebra.Proofs.Composition

/-!
# Substitutions from lists of values

A list of values makes a substitution if and only if each of them is a pair of a variable and a
term and no variable comes twice; then its bindings are the list.  Otherwise the first value that is
no binding after those before it decides the fault (`pairs_accepted_or_first_fault`).  What such a
value is refused for is said by `Value.FaultyBinding`, one rule for each test, in the order of the
tests.

Maps, substitutions and further maps bring nothing new: they are refused, and accepted, as the lists
of their pairs are.
-/

namespace TermAlgebra

variable {store : Store}

/-! ## Single values -/

namespace Value

/-- Two values as a pair. -/
def ofEntry (e : Value × Value) : Value := tuple [e.1, e.2]

/-- Why a value is refused as a binding where the given variables are bound: it is no pair, or does
not bind a variable, or not to a term, or binds one again. -/
inductive FaultyBinding (bound : List Var) : Value → Fault → Prop where
  | notPair {x : Value} :
    (∀ y z, x ≠ tuple [y, z]) → FaultyBinding bound x (.unexpected .binding x.kind)
  | notVariable {y z : Value} :
    (∀ v, y ≠ ofVar v) → FaultyBinding bound (tuple [y, z]) (.unexpected .variable y.kind)
  | notTerm {v : Var} {z : Value} :
    (∀ t, z ≠ term t) → FaultyBinding bound (tuple [ofVar v, z]) (.unexpected .term z.kind)
  | boundBefore {v : Var} {t : Term} :
    v ∈ bound → FaultyBinding bound (tuple [ofVar v, term t]) (.alreadyBound v)

theorem FaultyBinding.faultClass {bound : List Var} {x : Value} {fault : Fault}
    (h : FaultyBinding bound x fault) :
    fault.faultClass = .invalidArgument ∨
      fault.faultClass = .duplicateBinding ∧ ∃ v ∈ bound, fault = .alreadyBound v := by
  cases h with
  | notPair _ | notVariable _ | notTerm _ => exact .inl rfl
  | boundBefore hv => exact .inr ⟨rfl, _, hv, rfl⟩

/-- A value either binds a variable that is still free, or there is something against it. -/
theorem binds_or_faulty (bound : List Var) (x : Value) :
    (∃ b : Var × Term, x = ofBinding b ∧ b.1 ∉ bound) ∨ ∃ fault, FaultyBinding bound x fault := by
  by_cases hpair : ∃ y z, x = tuple [y, z]
  · obtain ⟨y, z, rfl⟩ := hpair
    by_cases hvar : ∃ v, y = ofVar v
    · obtain ⟨v, rfl⟩ := hvar
      by_cases hterm : ∃ t, z = term t
      · obtain ⟨t, rfl⟩ := hterm
        by_cases hv : v ∈ bound
        · exact .inr ⟨_, .boundBefore hv⟩
        · exact .inl ⟨(v, t), rfl, hv⟩
      · exact .inr ⟨_, .notTerm (not_exists.1 hterm)⟩
    · exact .inr ⟨_, .notVariable (not_exists.1 hvar)⟩
  · exact .inr ⟨_, .notPair fun y z h => hpair ⟨y, z, h⟩⟩

/-- Of a list, all values are bindings and bind different variables, or there is a first that is
refused after those before it. -/
theorem bind_or_first_faulty {bound : List Var} (hbound : bound.Nodup) (xs : List Value) :
    (∃ bs : List (Var × Term), xs = bs.map ofBinding ∧ (bound ++ bs.map Prod.fst).Nodup) ∨
      ∃ (bs : List (Var × Term)) (y : Value) (rest : List Value) (fault : Fault),
        xs = bs.map ofBinding ++ y :: rest ∧ (bound ++ bs.map Prod.fst).Nodup ∧
          FaultyBinding (bound ++ bs.map Prod.fst) y fault := by
  induction xs generalizing bound with
  | nil => exact .inl ⟨[], rfl, by rwa [List.map_nil, List.append_nil]⟩
  | cons x xs ih =>
    rcases binds_or_faulty bound x with ⟨b, rfl, hb⟩ | ⟨fault, hfault⟩
    · have hbound' : (bound ++ [b.1]).Nodup :=
        hbound.append (List.nodup_singleton b.1) (by simpa using hb)
      rcases ih hbound' with ⟨bs, rfl, hnodup⟩ | ⟨bs, y, rest, fault, rfl, hnodup, hfault⟩
      · refine .inl ⟨b :: bs, rfl, ?_⟩
        rwa [List.map_cons, List.append_cons]
      · refine .inr ⟨b :: bs, y, rest, fault, rfl, ?_, ?_⟩
        · rwa [List.map_cons, List.append_cons]
        · rwa [List.map_cons, List.append_cons]
    · refine .inr ⟨[], x, xs, fault, rfl, ?_, ?_⟩
      · rwa [List.map_nil, List.append_nil]
      · rwa [List.map_nil, List.append_nil]

/-! ### What the tests answer -/

theorem expectPair_of_ne {x : Value} (h : ∀ y z, x ≠ tuple [y, z]) :
    x.expectPair = .error (.unexpected .binding x.kind) := by
  unfold expectPair
  split
  · exact absurd rfl (h _ _)
  · rfl

theorem expectVar_of_ne {x : Value} (h : ∀ v, x ≠ ofVar v) :
    x.expectVar = .error (.unexpected .variable x.kind) := by
  unfold expectVar
  split
  · exact absurd rfl (h _)
  · rfl

theorem expectTerm_of_ne {x : Value} (h : ∀ t, x ≠ term t) :
    x.expectTerm = .error (.unexpected .term x.kind) := by
  unfold expectTerm
  split
  · exact absurd rfl (h _)
  · rfl

end Value

namespace Substitution

variable {s s' : Substitution} {x : Value} {xs ys : List Value} {fault : Fault}
  {bs : List (Var × Term)}

/-- Adds a value that has to be a pair. -/
def addPair (s : Substitution) (x : Value) : Except Fault Substitution := do
  let (v, t) ← x.expectPair
  s.addValue v t

theorem addPairs_cons (s : Substitution) (x : Value) (xs : List Value) :
    s.addPairs (x :: xs) = s.addPair x >>= fun s => s.addPairs xs := by
  rw [addPairs, addPair]
  cases x.expectPair <;> rfl

theorem addPair_ofBinding (s : Substitution) (b : Var × Term) :
    s.addPair (.ofBinding b) = s.add b.1 b.2 := rfl

theorem addPair_of_faulty (h : x.FaultyBinding s.domain fault) : s.addPair x = .error fault := by
  cases h with
  | notPair hpair =>
    rw [addPair, Value.expectPair_of_ne hpair]
    rfl
  | @notVariable y z hvar =>
    have hrun : s.addPair (.tuple [y, z]) = s.addValue y z := rfl
    rw [hrun, addValue, Value.expectVar_of_ne hvar]
    rfl
  | @notTerm v z hterm =>
    have hrun : s.addPair (.tuple [.ofVar v, z]) = z.expectTerm >>= fun t => s.add v t := rfl
    rw [hrun, Value.expectTerm_of_ne hterm]
    rfl
  | boundBefore hv => exact add_of_mem _ hv

/-! ## Lists -/

theorem addPairs_append (s : Substitution) (xs ys : List Value) :
    s.addPairs (xs ++ ys) = s.addPairs xs >>= fun s => s.addPairs ys := by
  induction xs generalizing s with
  | nil => rfl
  | cons x xs ih =>
    rw [List.cons_append, addPairs_cons, addPairs_cons]
    cases s.addPair x with
    | error fault => rfl
    | ok s' => exact ih s'

theorem addPairs_map_ofBinding (s : Substitution) (bs : List (Var × Term)) :
    s.addPairs (bs.map .ofBinding) = s.addAll bs := by
  induction bs generalizing s with
  | nil => rfl
  | cons b bs ih =>
    rw [List.map_cons, addPairs_cons, addPair_ofBinding, addAll]
    cases s.add b.1 b.2 with
    | error fault => rfl
    | ok s' => exact ih s'

/-- Entries of a map are added as pairs are. -/
theorem addEntries_eq (s : Substitution) (es : List (Value × Value)) :
    s.addEntries es = s.addPairs (es.map .ofEntry) := by
  induction es generalizing s with
  | nil => rfl
  | cons e es ih =>
    rw [List.map_cons, addPairs_cons, addEntries]
    have hpair : s.addPair (.ofEntry e) = s.addValue e.1 e.2 := rfl
    rw [hpair]
    cases s.addValue e.1 e.2 with
    | error fault => rfl
    | ok s' => exact ih s'

/-- Bindings of different variables are all added. -/
theorem addPairs_of_nodup (h : (s.domain ++ bs.map Prod.fst).Nodup) :
    ∃ s', s.addPairs (bs.map .ofBinding) = .ok s' ∧ s'.bindings = s.bindings ++ bs := by
  rw [addPairs_map_ofBinding]
  exact addAll_eq_ok s bs h

/-- The first faulty binding stops the adding, whatever follows. -/
theorem addPairs_of_first_faulty (h : (s.domain ++ bs.map Prod.fst).Nodup)
    (hfault : x.FaultyBinding (s.domain ++ bs.map Prod.fst) fault) (rest : List Value) :
    s.addPairs (bs.map .ofBinding ++ x :: rest) = .error fault := by
  obtain ⟨s', hs', hb⟩ := addPairs_of_nodup h
  have hdomain : s'.domain = s.domain ++ bs.map Prod.fst := by
    rw [domain, hb, List.map_append]
    rfl
  rw [addPairs_append, hs']
  have hrun : (Except.ok s' >>= fun s => s.addPairs (x :: rest)) = s'.addPairs (x :: rest) := rfl
  rw [hrun, addPairs_cons, addPair_of_faulty (hdomain ▸ hfault)]
  rfl

theorem addPairs_eq_ok_iff :
    s.addPairs xs = .ok s' ↔ ∃ bs, xs = bs.map .ofBinding ∧ s'.bindings = s.bindings ++ bs := by
  constructor
  · intro h
    rcases Value.bind_or_first_faulty s.domain_nodup xs with
      ⟨bs, rfl, hnodup⟩ | ⟨bs, y, rest, fault, rfl, hnodup, hfault⟩
    · obtain ⟨r, hr, hb⟩ := addPairs_of_nodup hnodup
      rw [hr] at h
      cases h
      exact ⟨bs, rfl, hb⟩
    · rw [addPairs_of_first_faulty hnodup hfault] at h
      cases h
  · rintro ⟨bs, rfl, hb⟩
    have hnodup : (s.domain ++ bs.map Prod.fst).Nodup := by
      have hdistinct := s'.distinct
      rwa [hb, List.map_append] at hdistinct
    obtain ⟨r, hr, hrb⟩ := addPairs_of_nodup hnodup
    rw [hr, Substitution.ext (hrb.trans hb.symm)]

theorem addPairs_eq_error_iff :
    s.addPairs xs = .error fault ↔ ∃ (bs : List (Var × Term)) (y : Value) (rest : List Value),
      xs = bs.map .ofBinding ++ y :: rest ∧ (s.domain ++ bs.map Prod.fst).Nodup ∧
        y.FaultyBinding (s.domain ++ bs.map Prod.fst) fault := by
  constructor
  · intro h
    rcases Value.bind_or_first_faulty s.domain_nodup xs with
      ⟨bs, rfl, hnodup⟩ | ⟨bs, y, rest, fault', rfl, hnodup, hfault⟩
    · obtain ⟨r, hr, -⟩ := addPairs_of_nodup hnodup
      rw [hr] at h
      cases h
    · rw [addPairs_of_first_faulty hnodup hfault] at h
      cases h
      exact ⟨bs, y, rest, rfl, hnodup, hfault⟩
  · rintro ⟨bs, y, rest, rfl, hnodup, hfault⟩
    exact addPairs_of_first_faulty hnodup hfault rest

/-! ## Collections of values -/

/-- A map counts as the list of its entries. -/
theorem ofValue_map (store : Store) (es : List (Value × Value)) :
    ofValue store (.map es) = empty.addPairs (es.map .ofEntry) :=
  addEntries_eq empty es

theorem ofValue_of_items (hitems : x.items? store = some xs) (hmap : ∀ es, x ≠ .map es) :
    ofValue store x = empty.addPairs xs := by
  unfold ofValue
  split
  · exact absurd rfl (hmap _)
  · rw [Value.items, hitems]
    rfl

/-- What is accepted are the bindings of a substitution. -/
theorem addPairs_empty_eq_ok_iff : empty.addPairs xs = .ok s ↔ xs = s.bindings.map .ofBinding := by
  rw [addPairs_eq_ok_iff]
  constructor
  · rintro ⟨bs, rfl, hb⟩
    rw [hb]
    rfl
  · rintro rfl
    exact ⟨s.bindings, rfl, rfl⟩

/-- The pairs that are given one by one or as a single map. -/
def givenPairs : List Value → List Value
  | [.map es] => es.map .ofEntry
  | xs => xs

theorem givenPairs_of_ne (h : ∀ es, xs ≠ [.map es]) : givenPairs xs = xs := by
  unfold givenPairs
  split
  · exact absurd rfl (h _)
  · rfl

/-- The entries of a further map are added behind. -/
theorem ofPairsAnd_map (store : Store) (xs : List Value) (es : List (Value × Value)) :
    ofPairsAnd store xs (.map es) = empty.addPairs (givenPairs xs ++ es.map .ofEntry) := by
  have hmore : ∀ s : Substitution, (if (Value.map es).truth store then do
      let es ← (Value.map es).mapEntries
      s.addEntries es
    else pure s) = s.addPairs (es.map .ofEntry) := by
    intro s
    cases es with
    | nil => rfl
    | cons e es => exact addEntries_eq s (e :: es)
  rw [addPairs_append]
  unfold ofPairsAnd
  simp only [hmore]
  split
  · rw [addEntries_eq]
    rfl
  · next hne => rw [givenPairs_of_ne hne]

end Substitution

namespace SubstitutionOperation

theorem run_ofPairs (store : Store) (x : Value) :
    ofPairs.run store [x] = (Substitution.ofValue store x).map .substitution := by
  have hrun : ofPairs.run store [x] =
      Substitution.ofValue store x >>= fun s => pure (.substitution s) := rfl
  rw [hrun]
  cases Substitution.ofValue store x <;> rfl

theorem run_ofPairsAnd (store : Store) (xs : List Value) (more : Value) :
    ofPairsAnd.run store [.list xs, more] =
      (Substitution.ofPairsAnd store xs more).map .substitution := by
  have hrun : ofPairsAnd.run store [.list xs, more] =
      Substitution.ofPairsAnd store xs more >>= fun s => pure (.substitution s) := rfl
  rw [hrun]
  cases Substitution.ofPairsAnd store xs more <;> rfl

theorem run_ofPairs_eq_ok_iff {store : Store} {x : Value} {o : Outcome} :
    ofPairs.run store [x] = .ok o ↔
      ∃ s, Substitution.ofValue store x = .ok s ∧ o = .substitution s := by
  rw [run_ofPairs]
  cases Substitution.ofValue store x <;> simp [Except.map, eq_comm]

theorem run_ofPairs_eq_error_iff {store : Store} {x : Value} {fault : Fault} :
    ofPairs.run store [x] = .error fault ↔ Substitution.ofValue store x = .error fault := by
  rw [run_ofPairs]
  cases Substitution.ofValue store x <;> simp [Except.map]

/-- A substitution that was just made lists its bindings. -/
theorem run_bindings_commit (store : Store) (s : Substitution) :
    bindings.run ((Outcome.substitution s).action.commit store).2
        [((Outcome.substitution s).action.commit store).1] =
      .ok (.value (.tuple (s.bindings.map .ofBinding))) := by
  show Except.ok (Outcome.value (.tuple (((store.newSubstitution s).2.substitution
    (store.newSubstitution s).1).bindings.map .ofBinding))) = _
  rw [Store.substitution_newSubstitution_self]

/-- What a collection of values makes of them.  It is accepted if and only if all of them are
bindings and bind different variables, and is then what the new substitution lists.  Otherwise the
first of them that is no binding after those before it decides the fault.  Maps are gone through by
their entries, so are substitutions by their bindings, and a further map adds its entries behind. -/
theorem pairs_accepted_or_first_fault (store : Store) :
    (∀ x xs, x.items? store = some xs → (∀ es, x ≠ .map es) →
      ((∃ o, ofPairs.run store [x] = .ok o) ↔
        ∃ bs : List (Var × Term), xs = bs.map .ofBinding ∧ (bs.map Prod.fst).Nodup) ∧
      (∀ o, ofPairs.run store [x] = .ok o →
        bindings.run (o.action.commit store).2 [(o.action.commit store).1] =
          .ok (.value (.tuple xs))) ∧
      ∀ fault, ofPairs.run store [x] = .error fault ↔
        ∃ (bs : List (Var × Term)) (y : Value) (rest : List Value),
          xs = bs.map .ofBinding ++ y :: rest ∧ (bs.map Prod.fst).Nodup ∧
            y.FaultyBinding (bs.map Prod.fst) fault) ∧
    (∀ (bound : List Var) (y : Value) (fault : Fault), y.FaultyBinding bound fault →
      fault.faultClass = .invalidArgument ∨
        fault.faultClass = .duplicateBinding ∧ ∃ v ∈ bound, fault = .alreadyBound v) ∧
    (∀ es, ofPairs.run store [.map es] = ofPairs.run store [.list (es.map .ofEntry)]) ∧
    (∀ id, ∀ bs ∈ [Value.substitution id, .list ((store.substitution id).bindings.map .ofBinding),
        .tuple ((store.substitution id).bindings.map .ofBinding)],
      ofPairs.run store [bs] = .ok (.substitution (store.substitution id))) ∧
    (∀ xs es, (∀ ds, xs ≠ [.map ds]) →
      ofPairsAnd.run store [.list xs, .map es] =
        ofPairs.run store [.list (xs ++ es.map .ofEntry)]) ∧
    ∀ ds es, ofPairsAnd.run store [.list [.map ds], .map es] =
      ofPairs.run store [.list (ds.map .ofEntry ++ es.map .ofEntry)] := by
  refine ⟨fun x xs hitems hmap => ?_, fun _ _ _ h => h.faultClass, fun es => ?_, fun id => ?_,
    fun xs es hne => ?_, fun ds es => ?_⟩
  · have hvalue := Substitution.ofValue_of_items hitems hmap
    refine ⟨⟨?_, ?_⟩, ?_, fun fault => ?_⟩
    · rintro ⟨o, ho⟩
      obtain ⟨s, hs, -⟩ := run_ofPairs_eq_ok_iff.1 ho
      rw [hvalue, Substitution.addPairs_empty_eq_ok_iff] at hs
      exact ⟨s.bindings, hs, s.distinct⟩
    · rintro ⟨bs, rfl, hnodup⟩
      refine ⟨_, run_ofPairs_eq_ok_iff.2 ⟨⟨bs, hnodup⟩, ?_, rfl⟩⟩
      rw [hvalue]
      exact Substitution.addPairs_empty_eq_ok_iff.2 rfl
    · intro o ho
      obtain ⟨s, hs, rfl⟩ := run_ofPairs_eq_ok_iff.1 ho
      rw [hvalue, Substitution.addPairs_empty_eq_ok_iff] at hs
      rw [hs]
      exact run_bindings_commit store s
    · rw [run_ofPairs_eq_error_iff, hvalue]
      exact Substitution.addPairs_eq_error_iff
  · rw [run_ofPairs, run_ofPairs, Substitution.ofValue_map]
    rfl
  · have hbindings : Substitution.empty.addPairs
        ((store.substitution id).bindings.map .ofBinding) = .ok (store.substitution id) :=
      Substitution.addPairs_empty_eq_ok_iff.2 rfl
    intro bs hbs
    simp only [List.mem_cons, List.not_mem_nil, or_false] at hbs
    rcases hbs with rfl | rfl | rfl
    all_goals exact run_ofPairs_eq_ok_iff.2 ⟨_, hbindings, rfl⟩
  · rw [run_ofPairsAnd, run_ofPairs, Substitution.ofPairsAnd_map,
      Substitution.givenPairs_of_ne hne]
    rfl
  · rw [run_ofPairsAnd, run_ofPairs, Substitution.ofPairsAnd_map]
    rfl

/-- `[(x, a), (y, f(x)), (x, 1), null]`: the third value binds `x` again, but that it has no term is
noticed first, and the fourth is not looked at.  Where a further map binds `x` to `b` behind the
first two, the fault names `x`. -/
theorem pairs_accepted_or_first_fault_third :
    let store : Store := ⟨[], [], 0⟩
    let bs : List (Var × Term) := [(⟨"x"⟩, .const "a"), (⟨"y"⟩, .app ⟨"f", 1⟩ [.var ⟨"x"⟩])]
    let xs : List Value := bs.map .ofBinding
    (∃ o, ofPairs.run store [.tuple xs] = .ok o ∧
      bindings.run (o.action.commit store).2 [(o.action.commit store).1] =
        .ok (.value (.tuple xs))) ∧
    ofPairs.run store [.list (xs ++ [.tuple [.ofVar ⟨"x"⟩, .int 1], .null])] =
      .error (.unexpected .term .int) ∧
    (Fault.unexpected .term .int).faultClass = .invalidArgument ∧
    ofPairsAnd.run store [.list xs, .map [(.ofVar ⟨"x"⟩, .term (.const "b"))]] =
      .error (.alreadyBound ⟨"x"⟩) := by
  intro store bs xs
  obtain ⟨hvalues, hclass, -, -, hmore, -⟩ := pairs_accepted_or_first_fault store
  have hnodup : (bs.map Prod.fst).Nodup := by decide
  obtain ⟨haccepted, hlisted, -⟩ := hvalues (.tuple xs) xs rfl fun _ => Value.noConfusion
  obtain ⟨o, ho⟩ := haccepted.2 ⟨bs, rfl, hnodup⟩
  have hterm : (Value.tuple [.ofVar ⟨"x"⟩, .int 1]).FaultyBinding (bs.map Prod.fst)
      (.unexpected .term .int) := .notTerm fun _ => Value.noConfusion
  refine ⟨⟨o, ho, hlisted o ho⟩, ?_, ?_, ?_⟩
  · exact ((hvalues _ _ rfl fun _ => Value.noConfusion).2.2 _).2
      ⟨bs, _, [.null], rfl, hnodup, hterm⟩
  · rcases hclass _ _ _ hterm with h | ⟨h, -⟩
    · exact h
    · cases h
  · rw [hmore xs _ fun ds => by simp [xs, bs]]
    exact ((hvalues _ _ rfl fun _ => Value.noConfusion).2.2 _).2
      ⟨bs, _, [], rfl, hnodup, .boundBefore (by decide)⟩

end SubstitutionOperation

end TermAlgebra
