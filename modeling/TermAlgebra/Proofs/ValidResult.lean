import TermAlgebra.Operation.Outcome
import TermAlgebra.Proofs.Valid

/-!
# Valid results of reading and building

What is taken out of a valid value is valid, and what the validating constructors build from
well-shaped terms is well shaped: the only place where an application is made is `Symbol.apply`,
which counts the arguments.
-/

namespace TermAlgebra

variable {store : Store} {x y : Value} {xs : List Value}

namespace Value

/-! ## Items -/

theorem valid_of_items? (hstore : store.Valid) (hx : x.Valid store)
    (h : x.items? store = some xs) : ∀ y ∈ xs, y.Valid store := by
  cases x with
  | text s =>
    cases h
    exact List.forall_mem_map.2 fun c _ => valid_text _
  | bytes bs =>
    cases h
    exact List.forall_mem_map.2 fun b _ => valid_int _
  | list ys =>
    cases h
    exact valid_list.1 hx
  | tuple ys =>
    cases h
    exact valid_tuple.1 hx
  | map es =>
    cases h
    exact List.forall_mem_map.2 fun e he => (valid_map.1 hx e he).1
  | nameSet ns =>
    cases h
    exact List.forall_mem_map.2 fun n _ => valid_text _
  | substitution id =>
    cases h
    exact List.forall_mem_map.2 fun b hb =>
      valid_ofBinding (Substitution.wellShaped_iff.1 (hstore.substitution id) b hb)
  | _ => cases h

theorem ensures_items (hstore : store.Valid) (hx : x.Valid store) :
    Ensures (x.items store) fun xs => ∀ y ∈ xs, y.Valid store := by
  unfold items
  split
  · next xs hxs => exact .ok (valid_of_items? hstore hx hxs)
  · exact .error _

theorem ensures_four (hstore : store.Valid) (hx : x.Valid store) :
    Ensures (x.four store) fun p =>
      p.1.Valid store ∧ p.2.1.Valid store ∧ p.2.2.1.Valid store ∧ p.2.2.2.Valid store := by
  unfold four
  split
  · next y z u v hall =>
    have h := valid_of_items? hstore hx hall
    exact .ok ⟨h y (by simp), h z (by simp), h u (by simp), h v (by simp)⟩
  all_goals exact .error _

/-! ## Arguments of the right kind -/

theorem ensures_expectVar (x : Value) : Ensures x.expectVar fun v => x = .term (.var v) := by
  unfold expectVar
  split
  · exact .ok rfl
  · exact .error _

theorem ensures_expectTerm (hx : x.Valid store) :
    Ensures x.expectTerm fun t => x = .term t ∧ t.WellShaped := by
  cases x with
  | term t => exact .ok ⟨rfl, valid_term.1 hx⟩
  | _ => exact .error _

theorem ensures_expectPair (hx : x.Valid store) :
    Ensures x.expectPair fun p => p.1.Valid store ∧ p.2.Valid store := by
  unfold expectPair
  split
  · next y z =>
    have h := valid_tuple.1 hx
    exact .ok ⟨h y (by simp), h z (by simp)⟩
  · exact .error _

theorem ensures_substitutionId (method : String) (hx : x.Valid store) :
    Ensures (x.substitutionId method) fun id =>
      x = .substitution id ∧ id < store.substitutions.length := by
  cases x with
  | substitution id => exact .ok ⟨rfl, valid_substitution.1 hx⟩
  | _ => exact .error _

theorem ensures_mapEntries (hx : x.Valid store) :
    Ensures x.mapEntries fun es => ∀ e ∈ es, e.1.Valid store ∧ e.2.Valid store := by
  cases x with
  | map es => exact .ok (valid_map.1 hx)
  | _ => exact .error _

theorem ensures_expectSide (side : Side) (hx : x.Valid store) :
    Ensures (x.expectSide side) Term.WellShaped := by
  cases x with
  | term t => exact .ok (valid_term.1 hx)
  | _ => exact .error _

theorem valid_toOption (hx : x.Valid store) : ∀ p ∈ x.toOption, p.Valid store := by
  intro p hp
  cases x with
  | null => cases hp
  | _ =>
    cases hp
    exact hx

end Value

/-! ## Terms and equations -/

/-- A term as an object is well shaped; other objects are not asked. -/
def Object.TermWellShaped (x : Object) : Prop := ∀ t, x = .term t → t.WellShaped

theorem Value.TermsWellShaped.object (hx : x.TermsWellShaped) :
    (Object.value x).TermWellShaped := by
  rintro t h
  cases h
  exact termsWellShaped_term.1 hx

theorem Object.termWellShaped_map (hxs : ∀ x ∈ xs, x.TermsWellShaped) :
    ∀ y ∈ xs.map Object.value, y.TermWellShaped :=
  List.forall_mem_map.2 fun x hx => (hxs x hx).object

/-- What a value lists is in it. -/
theorem Object.termWellShaped_items? (hx : x.TermsWellShaped) :
    ∀ ys ∈ (Object.value x).items?, ∀ y ∈ ys, y.TermWellShaped := by
  intro ys hys
  cases x with
  | list xs =>
    cases hys
    exact termWellShaped_map (Value.termsWellShaped_list.1 hx)
  | tuple xs =>
    cases hys
    exact termWellShaped_map (Value.termsWellShaped_tuple.1 hx)
  | bytes data =>
    cases hys
    exact List.forall_mem_map.2 fun b _ => (Value.termsWellShaped_int _).object
  | _ => cases hys

section

variable {args : Object} {items : List Object}

theorem Symbol.ensures_argsOf (f : Symbol) (i : Nat) (hitems : ∀ y ∈ items, y.TermWellShaped) :
    Ensures (f.argsOf i items) fun ts => ∀ t ∈ ts, t.WellShaped := by
  induction items generalizing i with
  | nil => exact .ok fun t ht => absurd ht List.not_mem_nil
  | cons y items ih =>
    have hy := hitems y List.mem_cons_self
    have htail := ih (i + 1) fun z hz => hitems z (List.mem_cons_of_mem y hz)
    unfold argsOf
    split
    · next heq => cases heq
    · next t _ heq =>
      cases heq
      refine htail.bind fun ts hts => .pure fun u hu => ?_
      rcases List.mem_cons.1 hu with rfl | hu
      · exact hy u rfl
      · exact hts u hu
    · exact .error _

theorem Symbol.ensures_apply (f : Symbol) {ts : List Term} (hts : ∀ t ∈ ts, t.WellShaped) :
    Ensures (f.apply ts) Term.WellShaped := by
  intro t ht
  obtain ⟨hlength, rfl⟩ := Symbol.apply_eq_ok_iff.1 ht
  exact (Term.wellShaped_app f ts).2 ⟨hlength, hts⟩

theorem Symbol.ensures_applyTo (f : Symbol) (hitems : ∀ y ∈ items, y.TermWellShaped) :
    Ensures (f.applyTo items) Term.WellShaped :=
  (f.ensures_argsOf 0 hitems).bind fun _ hts => f.ensures_apply hts

theorem Term.ensures_ofObjects (head : Object)
    (hargs : ∀ ys ∈ args.items?, ∀ y ∈ ys, y.TermWellShaped) :
    Ensures (Term.ofObjects head args) WellShaped := by
  unfold ofObjects
  split
  · next f =>
    split
    · next ys hys => exact f.ensures_applyTo (hargs ys hys)
    · exact .error _
  · exact .error _

theorem Term.ensures_applyToList (head : Object)
    (hargs : ∀ ys ∈ args.items?, ∀ y ∈ ys, y.TermWellShaped) :
    Ensures (Term.applyToList head args) WellShaped :=
  .bind_any fun _ => ensures_ofObjects _ hargs

theorem Term.ensures_applyToArgs (head : Object) (hitems : ∀ y ∈ items, y.TermWellShaped) :
    Ensures (Term.applyToArgs head items) WellShaped :=
  ensures_applyToList head fun _ hys => Option.some.inj hys ▸ hitems

end

theorem Term.ensures_constOfValue : Ensures (Term.constOfValue x) WellShaped :=
  .bind_any fun c => .pure (wellShaped_const c)

theorem Equation.ensures_ofValues (hx : x.Valid store) (hy : y.Valid store) :
    Ensures (Equation.ofValues x y) WellShaped :=
  (Value.ensures_expectSide .left hx).bind fun _ hl =>
    (Value.ensures_expectSide .right hy).bind fun _ hr => .pure ⟨hl, hr⟩

/-! ## Substitutions -/

namespace Substitution

variable {s : Substitution}

theorem ensures_addValue (s : Substitution) (x : Value) (hy : y.Valid store) :
    Ensures (s.addValue x y) fun s' =>
      ∃ v t, x = .term (.var v) ∧ y = .term t ∧ t.WellShaped ∧ s.add v t = .ok s' :=
  (Value.ensures_expectVar x).bind fun v hv => (Value.ensures_expectTerm hy).bind fun t ht _ h =>
    ⟨v, t, hv, ht.1, ht.2, h⟩

theorem WellShaped.ensures_addValue (hs : s.WellShaped) (hy : y.Valid store) :
    Ensures (s.addValue x y) WellShaped := by
  refine (Substitution.ensures_addValue s x hy).mono ?_
  rintro s' ⟨v, t, -, -, ht, h⟩
  exact hs.add ht h

theorem WellShaped.ensures_addEntries {es : List (Value × Value)} (hs : s.WellShaped)
    (hes : ∀ e ∈ es, e.1.Valid store ∧ e.2.Valid store) :
    Ensures (s.addEntries es) WellShaped := by
  induction es generalizing s with
  | nil => exact .ok hs
  | cons e es ih =>
    refine (hs.ensures_addValue (hes e List.mem_cons_self).2).bind fun s' hs' => ?_
    exact ih hs' fun e' he' => hes e' (List.mem_cons_of_mem e he')

theorem WellShaped.ensures_addPairs (hs : s.WellShaped) (hxs : ∀ x ∈ xs, x.Valid store) :
    Ensures (s.addPairs xs) WellShaped := by
  induction xs generalizing s with
  | nil => exact .ok hs
  | cons x xs ih =>
    refine (Value.ensures_expectPair (hxs x List.mem_cons_self)).bind fun p hp => ?_
    refine (hs.ensures_addValue hp.2).bind fun s' hs' => ?_
    exact ih hs' fun y hy => hxs y (List.mem_cons_of_mem x hy)

theorem ensures_ofValue (hstore : store.Valid) (hx : x.Valid store) :
    Ensures (ofValue store x) WellShaped := by
  unfold ofValue
  split
  · exact wellShaped_empty.ensures_addEntries (Value.valid_map.1 hx)
  · exact (Value.ensures_items hstore hx).bind fun xs hxs =>
      wellShaped_empty.ensures_addPairs hxs

theorem ensures_ofPairsAnd (hxs : ∀ x ∈ xs, x.Valid store) (hy : y.Valid store) :
    Ensures (ofPairsAnd store xs y) WellShaped := by
  have hmore : ∀ s : Substitution, s.WellShaped →
      Ensures (if y.truth store then (do let es ← y.mapEntries; s.addEntries es) else pure s)
        WellShaped := by
    intro s hs
    split
    · exact (Value.ensures_mapEntries hy).bind fun es hes => hs.ensures_addEntries hes
    · exact .pure hs
  unfold ofPairsAnd
  dsimp only
  split
  · next es =>
    have hes := Value.valid_map.1 (hxs (.map es) List.mem_cons_self)
    exact (wellShaped_empty.ensures_addEntries hes).bind hmore
  · exact (wellShaped_empty.ensures_addPairs hxs).bind hmore

end Substitution

/-! ## Rebuilding

Whatever is built anew goes through the constructors, so what comes out is well shaped, even where
nothing is known of what went in.
-/

theorem Term.ensures_rebuild (t : Term) : Ensures t.rebuild WellShaped := by
  intro u hu
  obtain ⟨ht, rfl⟩ := rebuild_eq_ok_iff.1 hu
  exact ht

theorem Equation.ensures_rebuild (e : Equation) : Ensures e.rebuild WellShaped :=
  e.lhs.ensures_rebuild.bind fun _ hl => e.rhs.ensures_rebuild.bind fun _ hr => .ok ⟨hl, hr⟩

theorem Substitution.WellShaped.ensures_addRebuilt {s : Substitution} (hs : s.WellShaped)
    (pairs : List (Var × Term)) : Ensures (s.addRebuilt pairs) WellShaped := by
  induction pairs generalizing s with
  | nil => exact .ok hs
  | cons b rest ih =>
    refine b.2.ensures_rebuild.bind fun t ht => ?_
    exact Ensures.bind (fun _ h => hs.add ht h) fun s' hs' => ih hs'

theorem Substitution.ensures_rebuild (s : Substitution) : Ensures s.rebuild WellShaped :=
  wellShaped_empty.ensures_addRebuilt s.bindings

/-! ## Signatures -/

theorem mem_of_mem_eraseDups {α : Type} [BEq α] {a : α} (l : List α) (h : a ∈ l.eraseDups) :
    a ∈ l := by
  match l with
  | [] => exact h
  | b :: l =>
    rw [List.eraseDups_cons] at h
    rcases List.mem_cons.1 h with rfl | h
    · exact List.mem_cons_self
    · exact List.mem_cons_of_mem b (List.mem_of_mem_filter (mem_of_mem_eraseDups _ h))
termination_by l.length
decreasing_by
  rw [List.length_cons]
  exact Nat.lt_succ_of_le (List.length_filter_le _ _)

theorem Signature.ensures_ofEntries (hstore : store.Valid) (hy : y.Valid store) :
    Ensures (Signature.ofEntries store x y) fun sig => (Value.signature sig).Valid store := by
  have hconstants : Ensures (constantsOfValue store y) fun cs => ∀ c ∈ cs, c.Valid store := by
    refine (Value.ensures_items hstore hy).bind fun xs hxs => ?_
    split
    · exact .error _
    · exact .pure fun c hc => hxs c (mem_of_mem_eraseDups _ hc)
  exact hconstants.bind fun cs hcs => .bind_any fun es => .bind_any fun fs =>
    .pure (Value.valid_signature.2 hcs)

theorem Signature.ensures_ofValues (hstore : store.Valid) (hy : y.Valid store) :
    Ensures (Signature.ofValues store x y) fun sig => (Value.signature sig).Valid store :=
  .bind_any fun _ => .bind_any fun _ => ensures_ofEntries hstore hy

end TermAlgebra
