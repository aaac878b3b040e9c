import TermAlgebra.Proofs.TermReport
import TermAlgebra.Proofs.WrittenForm

/-!
# Terms that are written alike

Two ground terms with the same skeleton differ only where one has a constant and the other a symbol
without arguments of the same name (`exists_confusedAt`).  If both stand in one term, a check of
that term warns about the name, whatever the signature.  So terms that a check does not warn about
are told apart by their written forms.
-/

namespace TermAlgebra

namespace Term

/-! ## Confusion -/

/-- At a position `t` has a constant and `u` a symbol without arguments, both of the name `c`. -/
def ConfusedAt (p : Position) (c : String) (t u : Term) : Prop :=
  t.at? p = some (.const c) ∧ u.at? p = some (.app ⟨c, 0⟩ [])

variable {t u a b : Term} {p : Position} {c : String} {f g : Symbol} {as bs : List Term} {i : Nat}

/-- Arguments are confused one step further down. -/
theorem ConfusedAt.app (h : ConfusedAt p c a b) (ha : as[i]? = some a) (hb : bs[i]? = some b) :
    ConfusedAt (i :: p) c (.app f as) (.app g bs) := by
  refine ⟨?_, ?_⟩
  · rw [at?_app_cons, ha]
    exact h.1
  · rw [at?_app_cons, hb]
    exact h.2

/-- A constant and a well-shaped application with the same skeleton are confused at the root. -/
theorem confusedAt_root (hf : (app f as).WellShaped)
    (h : (app f as).skeleton = (const c).skeleton) : ConfusedAt [] c (const c) (app f as) := by
  obtain ⟨hcount, -⟩ := (wellShaped_app f as).1 hf
  obtain ⟨hname, rfl⟩ := skeleton_app_eq_leaf_iff.1 h
  have hsymbol : f = ⟨c, 0⟩ := Symbol.ext hname hcount.symm
  rw [hsymbol]
  exact ⟨at?_nil _, at?_nil _⟩

theorem exists_getElem?_ne (h : as.map skeleton = bs.map skeleton) (hne : as ≠ bs) :
    ∃ (i : Nat) (a b : Term),
      as[i]? = some a ∧ bs[i]? = some b ∧ a.skeleton = b.skeleton ∧ a ≠ b := by
  induction as generalizing bs with
  | nil => exact absurd (List.map_eq_nil_iff.1 h.symm).symm hne
  | cons a as ih =>
    cases bs with
    | nil => cases h
    | cons b bs =>
      obtain ⟨hhead, htail⟩ := List.cons_eq_cons.1 h
      by_cases hab : a = b
      · obtain ⟨i, hi⟩ := ih htail fun hrest => hne (by rw [hab, hrest])
        exact ⟨i + 1, hi⟩
      · exact ⟨0, a, b, rfl, rfl, hhead, hab⟩

/-- Going down where ground terms with the same skeleton differ, one comes to a constant on one side
and a symbol without arguments on the other. -/
theorem exists_confusedAt (ht : t.WellShaped) (hu : u.WellShaped) (hgt : t.isGround = true)
    (hgu : u.isGround = true) (h : t.skeleton = u.skeleton) (hne : t ≠ u) :
    ∃ p c, ConfusedAt p c t u ∨ ConfusedAt p c u t := by
  induction t using inductionOn generalizing u with
  | var v => exact absurd hgt (not_isGround_var v)
  | const c =>
    cases u with
    | var w => exact absurd hgu (not_isGround_var w)
    | const d =>
      have hcd : c = d := by simpa [skeleton] using h
      exact absurd (congrArg const hcd) hne
    | app g bs => exact ⟨[], c, Or.inl (confusedAt_root hu h.symm)⟩
  | app f as ih =>
    cases u with
    | var w => exact absurd hgu (not_isGround_var w)
    | const d => exact ⟨[], d, Or.inr (confusedAt_root ht h)⟩
    | app g bs =>
      obtain ⟨hname, hargs⟩ := skeleton_app_eq_app_iff.1 h
      obtain ⟨hcount, has⟩ := (wellShaped_app f as).1 ht
      obtain ⟨hcount', hbs⟩ := (wellShaped_app g bs).1 hu
      have hlength : as.length = bs.length := by simpa using congrArg List.length hargs
      have hfg : f = g := Symbol.ext hname (by omega)
      -- The roots are the same, so it is below two arguments that the terms differ.
      obtain ⟨i, a, b, ha, hb, hab, hne⟩ :=
        exists_getElem?_ne hargs fun hrest => hne (by rw [hfg, hrest])
      have hmem := List.mem_of_getElem? ha
      have hmem' := List.mem_of_getElem? hb
      obtain ⟨p, c, hc⟩ := ih a hmem (has a hmem) (hbs b hmem') (isGround_app.1 hgt a hmem)
        (isGround_app.1 hgu b hmem') hab hne
      exact ⟨i :: p, c, hc.imp (·.app ha hb) (·.app hb ha)⟩

/-! ## Warnings -/

variable {α : Type} [Declarable α]

/-- A check warns about a name that makes two arguments be confused, wherever in them that is. -/
theorem ConfusedAt.mem_warnings (h : ConfusedAt p c a b) (ha : a ∈ as) (hb : b ∈ as) (f : Symbol)
    (sig : Signature α) : clashWarning c ∈ (checkTerm (.app f as) sig).warnings := by
  have hconst : c ∈ (Term.app f as).constants := by
    rw [constants_app, List.mem_flatMap]
    exact ⟨a, ha, mem_constants.2 ⟨p, h.1⟩⟩
  have hnullary : c ∈ (Term.app f as).nullary := by
    rw [nullary_app, List.mem_append, List.mem_flatMap]
    exact Or.inr ⟨b, hb, mem_nullary.2 ⟨p, [], h.2⟩⟩
  rw [warnings_checkTerm]
  exact List.mem_map_of_mem (mem_clashNames.2 ⟨hconst, hnullary⟩)

/-- Two ground terms that are written alike without being the same are put under one symbol, and a
check against any signature warns about a name that is a constant in one of them and a symbol
without arguments in the other, at the same position.  Ground terms that it does not warn about are
the same if and only if they are written alike. -/
theorem clash_of_render_eq (sig : Signature α) (name : String) (ht : t.WellShaped)
    (hu : u.WellShaped) (hgt : t.isGround = true) (hgu : u.isGround = true)
    (hnt : t.NamesFreeOf ['(', ')', ',']) (hnu : u.NamesFreeOf ['(', ')', ',']) :
    ∃ w, (⟨name, 2⟩ : Symbol).apply [t, u] = .ok w ∧
      (t.render = u.render → t.same u = false →
        ∃ d ∈ (checkTerm w sig).warnings, d.check = "symbol_constant_clash" ∧
          ∃ p c, (ConfusedAt p c t u ∨ ConfusedAt p c u t) ∧ d = clashWarning c) ∧
      ((∀ d ∈ (checkTerm w sig).warnings, d.check ≠ "symbol_constant_clash") →
        (t.render = u.render ↔ t.same u = true)) := by
  have hclash : t.render = u.render → t.same u = false →
      ∃ d ∈ (checkTerm (.app ⟨name, 2⟩ [t, u]) sig).warnings, d.check = "symbol_constant_clash" ∧
        ∃ p c, (ConfusedAt p c t u ∨ ConfusedAt p c u t) ∧ d = clashWarning c := by
    intro hrender hdiffer
    have hskeleton : t.skeleton = u.skeleton :=
      skeleton_eq_of_render_eq (List.Subset.refl _) hnt hnu hrender
    have hne : t ≠ u := fun h => by simp [(same_iff t u).2 h] at hdiffer
    have hleft : t ∈ [t, u] := List.mem_cons_self
    have hright : u ∈ [t, u] := List.mem_cons_of_mem t List.mem_cons_self
    obtain ⟨p, c, h⟩ := exists_confusedAt ht hu hgt hgu hskeleton hne
    refine ⟨clashWarning c, ?_, rfl, p, c, h, rfl⟩
    rcases h with h | h
    · exact h.mem_warnings hleft hright _ sig
    · exact h.mem_warnings hright hleft _ sig
  refine ⟨.app ⟨name, 2⟩ [t, u], Symbol.apply_eq_ok_iff.2 ⟨rfl, rfl⟩, hclash, fun hquiet => ?_⟩
  constructor
  · intro hrender
    by_contra hdiffer
    obtain ⟨d, hd, hcheck, -⟩ := hclash hrender (Bool.not_eq_true _ ▸ hdiffer)
    exact hquiet d hd hcheck
  · intro hsame
    rw [(same_iff t u).1 hsame]

/-- `f(a,g(e))` with the constant `e` and with the symbol `e`, both under `p`: the check warns.
With the constant `b` in the first it does not, and the written forms differ. -/
theorem clash_of_render_eq_below :
    let sig : Signature String := ⟨[⟨"p", 2⟩, ⟨"f", 2⟩, ⟨"g", 1⟩, ⟨"e", 0⟩], []⟩
    let around (a : Term) : Term := .app ⟨"f", 2⟩ [.const "a", .app ⟨"g", 1⟩ [a]]
    let e : Term := .app ⟨"e", 0⟩ []
    (around (.const "e")).render = (around e).render ∧
      (around (.const "e")).same (around e) = false ∧
      (∃ d ∈ (checkTerm (.app ⟨"p", 2⟩ [around (.const "e"), around e]) sig).warnings,
        d.check = "symbol_constant_clash") ∧
      (around (.const "b")).render ≠ (around e).render := by
  intro sig around e
  have hrender : (around (.const "e")).render = (around e).render := by decide
  have hdiffer : (around (.const "e")).same (around e) = false := by decide
  refine ⟨hrender, hdiffer, ?_, ?_⟩
  · obtain ⟨w, hw, hclash, -⟩ := clash_of_render_eq (t := around (.const "e")) (u := around e) sig
      "p" (by decide) (by decide) (by decide) (by decide) (by decide) (by decide)
    obtain ⟨-, rfl⟩ := Symbol.apply_eq_ok_iff.1 hw
    obtain ⟨d, hd, hcheck, -⟩ := hclash hrender hdiffer
    exact ⟨d, hd, hcheck⟩
  · obtain ⟨w, hw, -, hquiet⟩ := clash_of_render_eq (t := around (.const "b")) (u := around e) sig
      "p" (by decide) (by decide) (by decide) (by decide) (by decide) (by decide)
    obtain ⟨-, rfl⟩ := Symbol.apply_eq_ok_iff.1 hw
    have hnone : ∀ d ∈ (checkTerm (.app ⟨"p", 2⟩ [around (.const "b"), around e]) sig).warnings,
        d.check ≠ "symbol_constant_clash" := by
      intro d hd
      rw [warnings_checkTerm] at hd
      obtain ⟨c, hc, -⟩ := List.mem_map.1 hd
      obtain ⟨hconst, hnullary⟩ := mem_clashNames.1 hc
      have hc : c = "e" := List.mem_singleton.1 hnullary
      exact absurd (hc ▸ hconst) (by decide)
    rw [ne_eq, hquiet hnone]
    decide

end Term

end TermAlgebra
