import TermAlgebra.Proofs.Arity

/-!
# Coincidence

What a substitution makes of a term depends on the variables of the term and on nothing else: two
substitutions make the same of it if and only if they make the same of each of its variables
(`apply_coincidence`).  The variables of a term are listed once each, and the list is enough to
speak about every occurrence.

A substitution leaves a term as it is exactly if it binds none of its variables to anything but the
variable itself, so the terms that every substitution leaves as they are are the ground ones.
-/

namespace TermAlgebra

namespace Substitution

variable {s s₁ s₂ : Substitution} {v : Var} {t : Term}

/-! ## What the variables decide -/

theorem apply_eq_apply_iff :
    s₁.apply t = s₂.apply t ↔ ∀ v ∈ t.vars, s₁.apply (.var v) = s₂.apply (.var v) := by
  simp only [apply_var, Term.mem_vars]
  rw [apply_eq_subst, apply_eq_subst, Term.subst_eq_subst_iff]

theorem toFun_eq_var_iff : s.toFun v = .var v ↔ (v ∈ s → s.lookup v = some (.var v)) := by
  constructor
  · exact fun h hv => lookup_eq_some_var_iff.2 ⟨hv, h⟩
  · intro h
    by_cases hv : v ∈ s
    · exact toFun_of_lookup (h hv)
    · exact toFun_of_not_mem hv

theorem apply_eq_self_iff_lookup :
    s.apply t = t ↔ ∀ v ∈ t.vars, v ∈ s → s.lookup v = some (.var v) := by
  rw [apply_eq_self_iff]
  simp only [Term.mem_vars, toFun_eq_var_iff]

/-! ## Ground terms -/

theorem apply_of_isGround (h : t.isGround = true) (s : Substitution) : s.apply t = t := by
  refine apply_eq_self_iff.2 fun v hv => ?_
  rw [Term.isGround_iff.1 h] at hv
  exact absurd hv List.not_mem_nil

/-- A term that has a variable is not left as it is if a constant is put in for the variable. -/
theorem exists_apply_ne (h : t.isGround = false) :
    ∃ s : Substitution, s.WellShaped ∧ s.apply t ≠ t := by
  have hvars : t.occurrences ≠ [] := fun hnil => by
    rw [Term.isGround_iff.2 hnil] at h
    cases h
  obtain ⟨v, hv⟩ := List.exists_mem_of_ne_nil _ hvars
  refine ⟨⟨[(v, .const "c")], List.nodup_singleton v⟩, ?_, fun hfix => ?_⟩
  · exact List.forall_mem_singleton.2 (Term.wellShaped_const "c")
  · have hlookup := apply_eq_self_iff.1 hfix v hv
    rw [toFun_of_lookup (lookup_eq_some_iff.2 List.mem_cons_self)] at hlookup
    cases hlookup

/-! ## The operation -/

section

variable {store : Store} {i j : Nat}

theorem run_apply_eq_run_apply_iff (hi : (store.substitution i).WellShaped)
    (hj : (store.substitution j).WellShaped) (ht : t.WellShaped) :
    SubstitutionOperation.apply.run store [.substitution i, .term t] =
        SubstitutionOperation.apply.run store [.substitution j, .term t] ↔
      (store.substitution i).apply t = (store.substitution j).apply t := by
  rw [SubstitutionOperation.run_apply hi ht, SubstitutionOperation.run_apply hj ht]
  simp [Outcome.term, Outcome.value]

/-- A substitution without bindings is applied by copying. -/
theorem run_apply_of_isEmpty (h : (store.substitution i).isEmpty = true) (t : Term) :
    SubstitutionOperation.apply.run store [.substitution i, .term t] =
      TermOperation.copy.run store [.term t] := by
  show (((store.substitution i).apply t).rebuild >>= fun u => pure (Outcome.term u)) =
    t.rebuild >>= fun u => pure (Outcome.term u)
  rw [apply, if_pos h]

end

/-- Two substitutions make the same of a term if and only if they make the same of each variable in
it, and the operation that applies them answers alike under the same condition.  Without bindings a
term is left as it is, which is also what replacing its variables one by one comes to.  In general a
term is left as it is if and only if those of its variables that are bound are bound to themselves;
every substitution leaves the ground terms as they are, and no other terms. -/
theorem apply_coincidence (t : Term) :
    (∀ s₁ s₂ : Substitution, s₁.apply t = s₂.apply t ↔
      ∀ v ∈ t.vars, s₁.apply (.var v) = s₂.apply (.var v)) ∧
    (∀ (store : Store) (i j : Nat), (store.substitution i).WellShaped →
      (store.substitution j).WellShaped → t.WellShaped →
        (SubstitutionOperation.apply.run store [.substitution i, .term t] =
            SubstitutionOperation.apply.run store [.substitution j, .term t] ↔
          ∀ v ∈ t.vars, SubstitutionOperation.apply.run store [.substitution i, .term (.var v)] =
            SubstitutionOperation.apply.run store [.substitution j, .term (.var v)])) ∧
    (∀ s : Substitution, s.isEmpty = true → s.apply t = t ∧ t.subst s.toFun = t) ∧
    (∀ (store : Store) (i : Nat), (store.substitution i).isEmpty = true →
      SubstitutionOperation.apply.run store [.substitution i, .term t] =
        TermOperation.copy.run store [.term t]) ∧
    (∀ s : Substitution, s.apply t = t ↔
      ∀ v ∈ t.vars, v ∈ s → s.lookup v = some (.var v)) ∧
    (t.isGround = true → ∀ s : Substitution, s.apply t = t) ∧
    (t.isGround = false → ∃ s : Substitution, s.WellShaped ∧ s.apply t ≠ t) := by
  refine ⟨fun s₁ s₂ => apply_eq_apply_iff, ?_, ?_, fun store i hempty =>
    run_apply_of_isEmpty hempty t, fun s => apply_eq_self_iff_lookup, apply_of_isGround,
    exists_apply_ne⟩
  · intro store i j hi hj ht
    rw [run_apply_eq_run_apply_iff hi hj ht, apply_eq_apply_iff]
    refine forall_congr' fun v => imp_congr_right fun _ => ?_
    exact (run_apply_eq_run_apply_iff hi hj (Term.wellShaped_var v)).symm
  · intro s hempty
    have hself : s.apply t = t := if_pos hempty
    exact ⟨hself, (apply_eq_subst s t).symm.trans hself⟩

/-- `{x -> a, y -> f(z), w -> w}` and `{v -> b, y -> f(z), x -> a}` make the same of `g(x,g(w,x))`,
and the first makes something else of it than `{x -> a, w -> b}`.  It leaves `g(w,b)` as it is. -/
theorem apply_coincidence_nested :
    let s₁ : Substitution := ⟨[(⟨"x"⟩, .const "a"), (⟨"y"⟩, .app ⟨"f", 1⟩ [.var ⟨"z"⟩]),
      (⟨"w"⟩, .var ⟨"w"⟩)], by decide⟩
    let s₂ : Substitution := ⟨[(⟨"v"⟩, .const "b"), (⟨"y"⟩, .app ⟨"f", 1⟩ [.var ⟨"z"⟩]),
      (⟨"x"⟩, .const "a")], by decide⟩
    let s₃ : Substitution := ⟨[(⟨"x"⟩, .const "a"), (⟨"w"⟩, .const "b")], by decide⟩
    let store : Store := ⟨[s₁, s₂, s₃, ∅], [], 0⟩
    let t : Term := .app ⟨"g", 2⟩ [.var ⟨"x"⟩, .app ⟨"g", 2⟩ [.var ⟨"w"⟩, .var ⟨"x"⟩]]
    let u : Term := .app ⟨"g", 2⟩ [.var ⟨"w"⟩, .const "b"]
    let run (i : Nat) (t : Term) :=
      SubstitutionOperation.apply.run store [.substitution i, .term t]
    (s₁.apply t = s₂.apply t ∧ s₁.apply t ≠ s₃.apply t) ∧
    (run 0 t = run 1 t ∧ run 3 t = TermOperation.copy.run store [.term t]) ∧
    s₁.apply u = u ∧ (∅ : Substitution).apply t = t ∧
    (∀ s : Substitution, s.apply (.app ⟨"f", 1⟩ [.const "a"]) = .app ⟨"f", 1⟩ [.const "a"]) ∧
    ∃ s : Substitution, s.WellShaped ∧ s.apply u ≠ u := by
  intro s₁ s₂ s₃ store t u run
  obtain ⟨hiff, hrun, hempty, hcopy, -, -, -⟩ := apply_coincidence t
  obtain ⟨-, -, -, -, hfix, -, hmoved⟩ := apply_coincidence u
  obtain ⟨-, -, -, -, -, hground, -⟩ := apply_coincidence (.app ⟨"f", 1⟩ [.const "a"])
  refine ⟨⟨(hiff s₁ s₂).2 (by decide), fun h => absurd ((hiff s₁ s₃).1 h) (by decide)⟩,
    ⟨(hrun store 0 1 (by decide) (by decide) (by decide)).2 fun v hv => ?_, hcopy store 3 rfl⟩,
    (hfix s₁).2 (by decide), (hempty ∅ rfl).1, hground (by decide), hmoved (by decide)⟩
  have hvars : t.vars = [⟨"x"⟩, ⟨"w"⟩] := by decide
  rw [hvars, List.mem_cons, List.mem_singleton] at hv
  rcases hv with rfl | rfl <;> rfl

end Substitution

end TermAlgebra
