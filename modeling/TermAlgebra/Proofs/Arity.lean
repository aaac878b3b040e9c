import TermAlgebra.Proofs.Effect
import TermAlgebra.Proofs.Equivalence

/-!
# Numbers of arguments

A term is well shaped if and only if the symbol at each position has as many arguments as it takes
(`wellShaped_iff_at?`).  An application is accepted only with the right number of arguments, so what
is built from well-shaped terms is well shaped.  Copying, applying and composing build their results
anew through the same constructors, and on well-shaped terms none of them is ever refused
(`arities_kept`).
-/

namespace TermAlgebra

/-! ## Positions -/

theorem Term.wellShaped_iff_at? {t : Term} :
    t.WellShaped ↔ ∀ p f as, t.at? p = some (.app f as) → as.length = f.arity := by
  induction t using inductionOn with
  | var v =>
    refine iff_of_true (wellShaped_var v) fun p f as hat => ?_
    cases p <;> simp at hat
  | const c =>
    refine iff_of_true (wellShaped_const c) fun p f as hat => ?_
    cases p <;> simp at hat
  | app g bs ih =>
    rw [wellShaped_app]
    constructor
    · rintro ⟨hcount, hbs⟩ p f as hat
      cases p with
      | nil =>
        rw [at?_nil] at hat
        cases hat
        exact hcount
      | cons i p =>
        rw [at?_app_cons] at hat
        obtain ⟨b, hb, hat⟩ := Option.bind_eq_some_iff.1 hat
        have hmem := List.mem_of_getElem? hb
        exact (ih b hmem).1 (hbs b hmem) p f as hat
    · intro h
      refine ⟨h [] g bs (at?_nil _), fun b hb => (ih b hb).2 fun p f as hat => ?_⟩
      obtain ⟨i, hi⟩ := List.mem_iff_getElem?.1 hb
      refine h (i :: p) f as ?_
      rw [at?_app_cons, hi]
      exact hat

/-! ## Constructors -/

theorem Symbol.argsOf_map (f : Symbol) (i : Nat) (ts : List Term) :
    f.argsOf i (ts.map .term) = .ok ts := by
  induction ts generalizing i with
  | nil => rfl
  | cons t ts ih =>
    rw [List.map_cons, argsOf, ih]
    rfl

theorem Symbol.applyTo_map (f : Symbol) (ts : List Term) :
    f.applyTo (ts.map .term) = f.apply ts := by
  rw [applyTo, argsOf_map]
  rfl

/-- The operations that apply a symbol accept terms if and only if they are as many as the symbol
takes. -/
theorem TermOperation.run_apply_eq (store : Store) (f : Symbol) (ts : List Term) :
    (∀ op ∈ [application, applyToList],
      op.run store [.symbol f, .tuple (ts.map .term)] = (f.apply ts).map .term) ∧
    (∀ op ∈ [applyToArgs, applyMethod],
      op.run store (.symbol f :: ts.map .term) = (f.apply ts).map .term) := by
  have hbind : (f.applyTo ((ts.map .term).map .value) >>= fun t => pure (Outcome.term t)) =
      (f.apply ts).map .term := by
    have hmap : (ts.map Value.term).map Object.value = ts.map Object.term := List.map_map
    rw [hmap, Symbol.applyTo_map]
    cases f.apply ts <;> rfl
  constructor
  · exact List.forall_mem_cons.2 ⟨hbind, List.forall_mem_singleton.2 hbind⟩
  · exact List.forall_mem_cons.2 ⟨hbind, List.forall_mem_singleton.2 hbind⟩

/-! ## Operations that build anew -/

section

variable {store : Store} {i : Nat} {t : Term} {e : Equation}

theorem TermOperation.run_copy (ht : t.WellShaped) :
    TermOperation.copy.run store [.term t] = .ok (.term t) := by
  have hrun : TermOperation.copy.run store [.term t] = t.rebuild >>= fun t => pure (.term t) := rfl
  rw [hrun, ht.rebuild]
  rfl

namespace SubstitutionOperation

theorem run_apply (hs : (store.substitution i).WellShaped) (ht : t.WellShaped) :
    apply.run store [.substitution i, .term t] = .ok (.term ((store.substitution i).apply t)) := by
  have hrun : apply.run store [.substitution i, .term t] =
      ((store.substitution i).apply t).rebuild >>= fun t => pure (.term t) := rfl
  rw [hrun, (hs.apply ht).rebuild]
  rfl

theorem run_applyEquation (hs : (store.substitution i).WellShaped) (he : e.WellShaped) :
    applyEquation.run store [.substitution i, .equation e] =
      .ok (.value (.equation ((store.substitution i).applyEquation e))) := by
  have hrun : applyEquation.run store [.substitution i, .equation e] =
      ((store.substitution i).applyEquation e).rebuild >>=
        fun e => pure (.value (.equation e)) := rfl
  rw [hrun, (hs.applyEquation he).rebuild]
  rfl

end SubstitutionOperation

end

/-! ## Well-shaped results -/

theorem Symbol.ensures_ofValues (store : Store) (name arity : Value) :
    Ensures (Symbol.ofValues store name arity) fun f => arity = .int f.arity := by
  have harity : Ensures (arity.expectArity store) fun n => arity = .int n := by
    unfold Value.expectArity
    split
    · exact .ok rfl
    · exact .error _
  exact .bind_any fun name => harity.bind fun n hn => .pure hn

/-- Numbers of arguments are right everywhere.  In a well-shaped term every symbol, at every depth,
has as many arguments as it takes, and that number is never negative.  The constructors accept an
application if the number is right, and what they accept from well-shaped parts is well shaped.
Copying a term or a substitution, applying a substitution to a term or an equation, dropping trivial
bindings and composing build their results anew through the constructors, and none of them is
refused: all return, and all that they return is well shaped. -/
theorem arities_kept :
    (∀ t : Term, t.WellShaped ↔
      ∀ p f as, t.at? p = some (.app f as) → as.length = f.arity) ∧
    (∀ (store : Store) (name arity : Value) (f : Symbol),
      Symbol.ofValues store name arity = .ok f → arity = .int f.arity) ∧
    (∀ (store : Store) (f : Symbol) (ts : List Term),
      (∀ op ∈ [TermOperation.application, .applyToList],
        op.run store [.symbol f, .tuple (ts.map .term)] = (f.apply ts).map .term) ∧
      (∀ op ∈ [TermOperation.applyToArgs, .applyMethod],
        op.run store (.symbol f :: ts.map .term) = (f.apply ts).map .term)) ∧
    (∀ (store : Store) (args : List Value), (∀ x ∈ args, x.TermsWellShaped) →
      ∀ op ∈ TermOperation.builders, ∀ o, op.run store args = .ok o →
        ∃ t, o = .term t ∧ t.WellShaped) ∧
    (∀ (store : Store) (i j : Nat) (t : Term) (e : Equation),
      (store.substitution i).WellShaped → (store.substitution j).WellShaped →
      t.WellShaped → e.WellShaped →
        (∃ u, TermOperation.copy.run store [.term t] = .ok (.term u) ∧ u.WellShaped) ∧
        (∃ u, SubstitutionOperation.apply.run store [.substitution i, .term t] = .ok (.term u) ∧
          u.WellShaped) ∧
        (∃ e', SubstitutionOperation.applyEquation.run store [.substitution i, .equation e] =
          .ok (.value (.equation e')) ∧ e'.WellShaped) ∧
        (∀ op ∈ [SubstitutionOperation.copy, .copyMethod, .withoutTrivial],
          ∃ s, op.run store [.substitution i] = .ok (.substitution s) ∧ s.WellShaped) ∧
        (∀ op ∈ [SubstitutionOperation.compose, .composeMethod],
          ∃ s trace, op.run store [.substitution i, .substitution j] = .ok (.composed s trace) ∧
            s.WellShaped)) := by
  refine ⟨fun t => Term.wellShaped_iff_at?, fun store name arity f hf =>
    Symbol.ensures_ofValues store name arity f hf, TermOperation.run_apply_eq,
    fun store args hargs op hop o ho => TermOperation.ensures_build hop hargs o ho, ?_⟩
  intro store i j t e hi hj ht he
  refine ⟨⟨t, TermOperation.run_copy ht, ht⟩,
    ⟨_, SubstitutionOperation.run_apply hi ht, hi.apply ht⟩,
    ⟨_, SubstitutionOperation.run_applyEquation hi he, hi.applyEquation he⟩, ?_, ?_⟩
  · intro op hop
    simp only [List.mem_cons, List.not_mem_nil, or_false] at hop
    rcases hop with rfl | rfl | rfl
    · exact ⟨_, Substitution.copied_eq hi, hi⟩
    · exact ⟨_, Substitution.copied_eq hi, hi⟩
    · exact ⟨_, Substitution.run_withoutTrivial hi, hi.withoutTrivial⟩
  · intro op hop
    rw [Substitution.run_compose hi hj op hop]
    obtain ⟨trace, htrace⟩ :=
      Substitution.composeTraced_eq_ok (store.substitution i) (store.substitution j)
    rw [htrace]
    exact ⟨_, trace, rfl, hi.followedBy hj⟩

/-- `g` takes two arguments and `f` takes one.  `g(x,f(z))` is accepted from its parts, and
`{x -> f(y), z -> z}` and `{y -> z, z -> a}` are composed, applied to it and copied.  A term in
which `f` has no argument is misshapen. -/
theorem arities_kept_below :
    let f : Symbol := ⟨"f", 1⟩
    let t : Term := .app ⟨"g", 2⟩ [.var ⟨"x"⟩, .app f [.var ⟨"z"⟩]]
    let store : Store := ⟨[⟨[(⟨"x"⟩, .app f [.var ⟨"y"⟩]), (⟨"z"⟩, .var ⟨"z"⟩)], by decide⟩,
      ⟨[(⟨"y"⟩, .var ⟨"z"⟩), (⟨"z"⟩, .const "a")], by decide⟩], [], 0⟩
    (TermOperation.applyToArgs.run store
        [.symbol ⟨"g", 2⟩, .term (.var ⟨"x"⟩), .term (.app f [.var ⟨"z"⟩])] = .ok (.term t) ∧
      t.WellShaped) ∧
    (∃ u, SubstitutionOperation.apply.run store [.substitution 0, .term t] = .ok (.term u) ∧
      u.WellShaped) ∧
    (∃ s, SubstitutionOperation.withoutTrivial.run store [.substitution 0] =
      .ok (.substitution s) ∧ s.WellShaped) ∧
    (∃ s trace, SubstitutionOperation.compose.run store [.substitution 0, .substitution 1] =
      .ok (.composed s trace) ∧ s.WellShaped) ∧
    ¬ Term.WellShaped (.app ⟨"g", 2⟩ [.var ⟨"x"⟩, .app f []]) := by
  intro f t store
  obtain ⟨hpositions, -, haccept, hbuild, hanew⟩ := arities_kept
  have hstore : (store.substitution 0).WellShaped ∧ (store.substitution 1).WellShaped := by decide
  have haccepted := (haccept store ⟨"g", 2⟩ [.var ⟨"x"⟩, .app f [.var ⟨"z"⟩]]).2 .applyToArgs
    (by decide)
  have hparts : ∀ x ∈ [Value.symbol ⟨"g", 2⟩, .term (.var ⟨"x"⟩), .term (.app f [.var ⟨"z"⟩])],
      x.TermsWellShaped := by
    intro x hx
    simp only [List.mem_cons, List.not_mem_nil, or_false] at hx
    rcases hx with rfl | rfl | rfl
    · exact (@Value.valid_symbol store _).termsWellShaped
    · exact Value.termsWellShaped_term.2 (by decide)
    · exact Value.termsWellShaped_term.2 (by decide)
  obtain ⟨u, hu, ht⟩ := hbuild store _ hparts .applyToArgs (by decide) _ haccepted
  cases hu
  obtain ⟨-, happly, -, hcopies, hcompose⟩ :=
    hanew store 0 1 t ⟨t, t⟩ hstore.1 hstore.2 ht ⟨ht, ht⟩
  refine ⟨⟨haccepted, ht⟩, happly, hcopies .withoutTrivial (by decide),
    hcompose .compose (by decide), fun hshape => ?_⟩
  have hcount := (hpositions _).1 hshape [1] f [] rfl
  exact absurd hcount (by decide)

end TermAlgebra
