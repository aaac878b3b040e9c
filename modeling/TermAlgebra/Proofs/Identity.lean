import TermAlgebra.Proofs.Arity

/-!
# Identity of terms

Terms are compared node by node, and values of other kinds are the same as nothing.  Two terms are
found to be the same if and only if they hold the same at every position
(`eq_of_label_at?`), which is to say that they are one tree.  The comparison goes through two
argument lists side by side, and never comes to the end of one before the other, because their
lengths are compared first (`sameInPairs_eq`).  So being the same is an equivalence relation that
copying and substituting respect (`sameTerm_decides`).
-/

namespace TermAlgebra

namespace Term

/-! ## Positions -/

/-- What a node holds, apart from what is below it. -/
inductive Label where
  | var (v : Var)
  | const (name : String)
  | symbol (f : Symbol)
deriving DecidableEq

/-- What the root of a term holds. -/
def label : Term → Label
  | .var v => .var v
  | .const c => .const c
  | .app f _ => .symbol f

/-- A term is determined by what stands at its positions, and where it has none. -/
theorem eq_of_label_at? {t u : Term} (h : ∀ p, (t.at? p).map label = (u.at? p).map label) :
    t = u := by
  induction t using inductionOn generalizing u with
  | var v =>
    have hroot := h []
    cases u <;> simp_all [label]
  | const c =>
    have hroot := h []
    cases u <;> simp_all [label]
  | app f as ih =>
    have hroot := h []
    cases u with
    | var w => simp [label] at hroot
    | const d => simp [label] at hroot
    | app g bs =>
      obtain rfl : f = g := by simpa [label] using hroot
      refine congrArg (app f) (List.ext_getElem? fun i => ?_)
      have hbelow : ∀ p, (as[i]?.bind fun a => a.at? p).map label =
          (bs[i]?.bind fun b => b.at? p).map label := by
        intro p
        rw [← at?_app_cons f, ← at?_app_cons f]
        exact h (i :: p)
      cases ha : as[i]? with
      | none =>
        cases hb : bs[i]? with
        | none => rfl
        | some b => simpa [ha, hb] using hbelow []
      | some a =>
        cases hb : bs[i]? with
        | none => simpa [ha, hb] using hbelow []
        | some b =>
          refine congrArg some (ih a (List.mem_of_getElem? ha) fun p => ?_)
          simpa [ha, hb] using hbelow p

/-! ## Pairs of arguments -/

mutual

/-- Compares two terms like `same`, but looks at two argument lists only if they are equally long
and then goes through them in pairs, up to the first difference. -/
def sameInPairs : Term → Term → Option Bool
  | .var v, .var w => some (v == w)
  | .const c, .const d => some (c == d)
  | .app f as, .app g bs =>
    if f == g && as.length == bs.length then sameArgsInPairs as bs else some false
  | _, _ => some false

/-- Compares arguments in pairs.  There is no answer if one list ends before the other. -/
def sameArgsInPairs : List Term → List Term → Option Bool
  | [], [] => some true
  | a :: as, b :: bs => do
    let equal ← sameInPairs a b
    if equal then sameArgsInPairs as bs else some false
  | _, _ => none

end

theorem sameArgsInPairs_eq {as bs : List Term} (hlength : as.length = bs.length)
    (ih : ∀ a ∈ as, ∀ b, sameInPairs a b = some (same a b)) :
    sameArgsInPairs as bs = some (sameArgs as bs) := by
  induction as generalizing bs with
  | nil =>
    obtain rfl := List.length_eq_zero_iff.1 hlength.symm
    rfl
  | cons a as ihas =>
    cases bs with
    | nil => cases hlength
    | cons b bs =>
      have htail := ihas (Nat.succ.inj hlength) fun x hx => ih x (List.mem_cons_of_mem a hx)
      rw [sameArgsInPairs, ih a List.mem_cons_self, sameArgs, htail]
      cases same a b <;> rfl

theorem length_eq_of_sameArgs : ∀ {as bs : List Term}, sameArgs as bs = true → as.length = bs.length
  | [], [], _ => rfl
  | _ :: _, [], h => Bool.noConfusion h
  | [], _ :: _, h => Bool.noConfusion h
  | _ :: _, _ :: _, h => congrArg Nat.succ (length_eq_of_sameArgs (Bool.and_eq_true_iff.1 h).2)

/-- Comparing in pairs always comes to an answer, which is that of `same`. -/
theorem sameInPairs_eq (t u : Term) : sameInPairs t u = some (same t u) := by
  induction t using inductionOn generalizing u with
  | var v => cases u <;> simp [sameInPairs, same]
  | const c => cases u <;> simp [sameInPairs, same]
  | app f as ih =>
    cases u with
    | var w => simp [sameInPairs, same]
    | const d => simp [sameInPairs, same]
    | app g bs =>
      rw [sameInPairs, same]
      by_cases hlength : as.length = bs.length
      · rw [sameArgsInPairs_eq hlength ih, beq_iff_eq.2 hlength, Bool.and_true]
        cases f == g <;> rfl
      · have hargs : sameArgs as bs = false :=
          Bool.eq_false_iff.2 fun h => hlength (length_eq_of_sameArgs h)
        rw [hargs, beq_eq_false_iff_ne.2 hlength, Bool.and_false]
        rfl

/-! ## Equivalence -/

theorem equivalence_same : Equivalence fun t u : Term => t.same u = true where
  refl t := (same_iff t t).2 rfl
  symm h := (same_iff _ _).2 ((same_iff _ _).1 h).symm
  trans h h' := (same_iff _ _).2 (((same_iff _ _).1 h).trans ((same_iff _ _).1 h'))

end Term

theorem Outcome.ok_bool_inj {a b : Bool} :
    (.ok (.bool a) : Except Fault Outcome) = .ok (.bool b) ↔ a = b := by
  simp [bool, value]

namespace TermOperation

theorem sameTerm_iff {x y : Value} :
    sameTerm x y = true ↔ ∃ t, x = .term t ∧ y = .term t := by
  constructor
  · intro h
    unfold sameTerm at h
    split at h
    · next t u => exact ⟨t, rfl, congrArg Value.term ((Term.same_iff t u).1 h).symm⟩
    · cases h
  · rintro ⟨t, rfl, rfl⟩
    exact (Term.same_iff t t).2 rfl

end TermOperation

theorem Value.same_term (store : Store) (t u : Term) :
    (term t).same store (term u) = (t == u) := by
  simp [Value.same, alike, alikeWith]

namespace TermOperation

theorem isTermValue_iff {x : Value} : isTermValue x = true ↔ ∃ t, x = .term t := by
  cases x <;> simp [isTermValue]

theorem sameTerm_tfae (store : Store) (x y : Value) :
    [sameTerm x y = true,
      isTerm.run store [x] = .ok (.bool true) ∧ isTerm.run store [y] = .ok (.bool true) ∧
        GeneralOperation.same.run store [x, y] = .ok (.bool true),
      ∃ t, x = .term t ∧ y = .term t,
      ∃ t u, x = .term t ∧ y = .term u ∧
        ∀ p, (t.at? p).map Term.label = (u.at? p).map Term.label].TFAE := by
  tfae_have 1 ↔ 3 := sameTerm_iff
  tfae_have 2 → 3 := by
    rintro ⟨hx, hy, h⟩
    obtain ⟨t, rfl⟩ := isTermValue_iff.1 (Outcome.ok_bool_inj.1 hx)
    obtain ⟨u, rfl⟩ := isTermValue_iff.1 (Outcome.ok_bool_inj.1 hy)
    have hsame : (Value.term t).same store (.term u) = true := Outcome.ok_bool_inj.1 h
    rw [Value.same_term, beq_iff_eq] at hsame
    exact ⟨t, rfl, congrArg Value.term hsame.symm⟩
  tfae_have 3 → 2 := by
    rintro ⟨t, rfl, rfl⟩
    have hsame : (Value.term t).same store (.term t) = true := by
      rw [Value.same_term, beq_self_eq_true]
    exact ⟨rfl, rfl, Outcome.ok_bool_inj.2 hsame⟩
  tfae_have 3 → 4 := by
    rintro ⟨t, rfl, rfl⟩
    exact ⟨t, t, rfl, rfl, fun _ => rfl⟩
  tfae_have 4 → 3 := by
    rintro ⟨t, u, rfl, rfl, h⟩
    exact ⟨t, rfl, congrArg Value.term (Term.eq_of_label_at? h).symm⟩
  tfae_finish

/-- Comparing two values for being the same term.  There always is an answer, and it decides whether
both are terms and equal, that is, whether they are one tree; so it is no whenever one of them is no
term, and going through the arguments in pairs never comes to the end of one list first.  On terms
this is an equivalence relation, which tells a variable, a constant and a symbol without arguments
apart though they have one name.  A copy is the same as what it was made from, and equivalent
substitutions make the same of the same term. -/
theorem sameTerm_decides :
    (∀ (store : Store) (x y : Value), ∃ answer, same.run store [x, y] = .ok (.bool answer) ∧
      [answer = true,
        isTerm.run store [x] = .ok (.bool true) ∧ isTerm.run store [y] = .ok (.bool true) ∧
          GeneralOperation.same.run store [x, y] = .ok (.bool true),
        ∃ t, x = .term t ∧ y = .term t,
        ∃ t u, x = .term t ∧ y = .term u ∧
          ∀ p, (t.at? p).map Term.label = (u.at? p).map Term.label].TFAE ∧
      ((∀ t, x ≠ .term t) ∨ (∀ t, y ≠ .term t) → answer = false)) ∧
    (∀ t u : Term, t.sameInPairs u = some (t.same u)) ∧
    Equivalence (fun t u : Term => t.same u = true) ∧
    (∀ name, (Term.var ⟨name⟩).same (.const name) = false ∧
      (Term.var ⟨name⟩).same (.app ⟨name, 0⟩ []) = false ∧
      (Term.const name).same (.app ⟨name, 0⟩ []) = false) ∧
    (∀ (store : Store) (t : Term), t.WellShaped →
      ∃ u, copy.run store [.term t] = .ok (.term u) ∧ t.same u = true) ∧
    ∀ (store : Store) (i j : Nat) (t u : Term), (store.substitution i).WellShaped →
      (store.substitution j).WellShaped → t.WellShaped →
      (store.substitution i).equivalent (store.substitution j) = true → t.same u = true →
        ∃ t' u', SubstitutionOperation.apply.run store [.substitution i, .term t] = .ok (.term t') ∧
          SubstitutionOperation.apply.run store [.substitution j, .term u] = .ok (.term u') ∧
          t'.same u' = true := by
  refine ⟨fun store x y => ⟨sameTerm x y, rfl, sameTerm_tfae store x y, fun hother => ?_⟩,
    Term.sameInPairs_eq, Term.equivalence_same, fun name => ⟨rfl, rfl, rfl⟩,
    fun store t ht => ?_, ?_⟩
  · rw [Bool.eq_false_iff]
    intro h
    obtain ⟨t, hx, hy⟩ := sameTerm_iff.1 h
    rcases hother with hother | hother
    · exact hother t hx
    · exact hother t hy
  · exact ⟨t, run_copy ht, (Term.same_iff t t).2 rfl⟩
  · intro store i j t u hi hj ht hequivalent hsame
    obtain rfl := (Term.same_iff t u).1 hsame
    refine ⟨_, _, SubstitutionOperation.run_apply hi ht, SubstitutionOperation.run_apply hj ht, ?_⟩
    rw [Substitution.apply_of_equivalent hequivalent]
    exact (Term.same_iff _ _).2 rfl

/-- `g(x,e)` with a symbol `e` without arguments, and with a constant `e` in its place: the two are
written alike, and differ at one position.  `{x -> a, y -> x}` and `{y -> x, x -> a}` make the same
of the first.  A term is never the same as a text. -/
theorem sameTerm_decides_lookalikes :
    let store : Store := ⟨[⟨[(⟨"x"⟩, .const "a"), (⟨"y"⟩, .var ⟨"x"⟩)], by decide⟩,
      ⟨[(⟨"y"⟩, .var ⟨"x"⟩), (⟨"x"⟩, .const "a")], by decide⟩], [], 0⟩
    let t : Term := .app ⟨"g", 2⟩ [.var ⟨"x"⟩, .app ⟨"e", 0⟩ []]
    let u : Term := .app ⟨"g", 2⟩ [.var ⟨"x"⟩, .const "e"]
    same.run store [.term t, .term u] = .ok (.bool false) ∧
    same.run store [.term t, .text "g(x,e)"] = .ok (.bool false) ∧
    (∃ t', copy.run store [.term t] = .ok (.term t') ∧ t.same t' = true) ∧
    ∃ t' u', SubstitutionOperation.apply.run store [.substitution 0, .term t] = .ok (.term t') ∧
      SubstitutionOperation.apply.run store [.substitution 1, .term t] = .ok (.term u') ∧
      t'.same u' = true := by
  intro store t u
  obtain ⟨hanswers, -, hequivalence, -, hcopy, hcongr⟩ := sameTerm_decides
  have ht : t.WellShaped := by decide
  refine ⟨?_, ?_, hcopy store t ht,
    hcongr store 0 1 t t (by decide) (by decide) ht (by decide) (hequivalence.refl t)⟩
  · obtain ⟨answer, hanswer, htfae, -⟩ := hanswers store (.term t) (.term u)
    have hno : answer = false := Bool.eq_false_iff.2 fun hyes => by
      obtain ⟨t', ht', hu'⟩ := (htfae.out 0 2).1 hyes
      have htu : t = u := Value.term.inj (ht'.trans hu'.symm)
      exact absurd htu (by decide)
    rw [hanswer, hno]
  · obtain ⟨answer, hanswer, -, hother⟩ := hanswers store (.term t) (.text "g(x,e)")
    rw [hanswer, hother (Or.inr fun _ => Value.noConfusion)]

end TermOperation

end TermAlgebra
