import Mathlib.Data.List.Lex
import TermAlgebra.Proofs.Arity
import TermAlgebra.Proofs.Repetition

/-!
# Order of variables

Variables are listed in the order in which they come up, in a term (`variable_scans_agree`), in the
bound terms of a substitution and in what a substitution makes of a term (`vars_of_results`).
-/

namespace TermAlgebra

/-!
## First occurrences

The variables of a term after a substitution are those of the terms put in, taken in the order of
the variables of the term, with repetitions dropped at the end (`vars_of_results`): a variable that
comes up a second time brings in nothing new.
-/

/-! ### Variables after a substitution -/

theorem Term.vars_subst (θ : Var → Term) (t : Term) :
    (t.subst θ).vars = (t.vars.flatMap fun v => (θ v).vars).eraseDups := by
  calc (t.subst θ).vars
      = (t.occurrences.flatMap fun v => (θ v).occurrences).eraseDups := by
        rw [vars, occurrences_subst]
    _ = (t.vars.flatMap fun v => (θ v).occurrences).eraseDups :=
        (eraseDups_flatMap_eraseDups t.occurrences _).symm
    _ = (t.vars.flatMap fun v => (θ v).vars).eraseDups :=
        eraseDups_flatMap_congr fun v _ => (eraseDups_eraseDups (θ v).occurrences).symm

namespace Substitution

theorem vars_apply (s : Substitution) (t : Term) :
    (s.apply t).vars = (t.vars.flatMap fun v => (s.apply (.var v)).vars).eraseDups := by
  simp only [apply_var]
  rw [apply_eq_subst, Term.vars_subst]

theorem isGround_apply_iff {s : Substitution} {t : Term} :
    (s.apply t).isGround = true ↔ ∀ v ∈ t.vars, (s.apply (.var v)).isGround = true := by
  simp only [Term.isGround_iff, Term.mem_vars, apply_var]
  rw [apply_eq_subst, Term.occurrences_subst, List.flatMap_eq_nil_iff]

/-- The variables of a result are listed in the order in which the variables of the term bring them
in, each where it comes up first.  It is ground if and only if all variables of the term are mapped
to ground terms.  What variables it has were in the term and free, or come from a bound term. -/
theorem vars_of_results (s : Substitution) (t : Term) :
    (s.apply t).vars = (t.vars.flatMap fun v => (s.apply (.var v)).vars).eraseDups ∧
    ((s.apply t).isGround = true ↔ ∀ v ∈ t.vars, (s.apply (.var v)).isGround = true) ∧
    (∀ w ∈ (s.apply t).vars, (w ∈ t.vars ∧ w ∉ s) ∨ w ∈ s.rangeVariables) ∧
    (s.WellShaped → t.WellShaped → ∀ (store : Store) (i : Nat), store.substitution i = s →
      ∃ u, SubstitutionOperation.apply.run store [.substitution i, .term t] = .ok (.term u) ∧
        TermOperation.vars.run store [.term u] = .ok (.value
          (.ofVars (t.vars.flatMap fun v => (s.apply (.var v)).vars).eraseDups)) ∧
        TermOperation.isGround.run store [.term u] =
          .ok (.bool (t.vars.all fun v => (s.apply (.var v)).isGround))) := by
  refine ⟨vars_apply s t, isGround_apply_iff, fun w hw => ?_, ?_⟩
  · rw [Term.mem_vars] at hw ⊢
    exact mem_or_mem_rangeVariables_of_mem_apply hw
  · rintro hs ht store i rfl
    have hground : ((store.substitution i).apply t).isGround =
        t.vars.all fun v => ((store.substitution i).apply (.var v)).isGround := by
      rw [Bool.eq_iff_iff, isGround_apply_iff, List.all_eq_true]
    refine ⟨_, SubstitutionOperation.run_apply hs ht, ?_, ?_⟩
    · rw [← vars_apply]
      rfl
    · rw [← hground]
      rfl

/-- `{x -> g(y,z), y -> f(z), w -> w}` applied to `h(x,g(y,x),w)`: `z` comes up with `x`, before it
comes up with `y`. -/
theorem vars_of_results_repeated :
    let s : Substitution := ⟨[(⟨"x"⟩, .app ⟨"g", 2⟩ [.var ⟨"y"⟩, .var ⟨"z"⟩]),
      (⟨"y"⟩, .app ⟨"f", 1⟩ [.var ⟨"z"⟩]), (⟨"w"⟩, .var ⟨"w"⟩)], by decide⟩
    let t : Term := .app ⟨"h", 3⟩ [.var ⟨"x"⟩, .app ⟨"g", 2⟩ [.var ⟨"y"⟩, .var ⟨"x"⟩], .var ⟨"w"⟩]
    (s.WellShaped ∧ t.WellShaped ∧ ⟨"z"⟩ ∈ (s.apply t).vars) ∧
    (s.apply t).vars = [⟨"y"⟩, ⟨"z"⟩, ⟨"w"⟩] ∧
    ¬ (s.apply t).isGround = true ∧
    ⟨"z"⟩ ∈ s.rangeVariables ∧
    ∃ u, SubstitutionOperation.apply.run ⟨[s], [], 0⟩ [.substitution 0, .term t] = .ok (.term u) ∧
      TermOperation.vars.run ⟨[s], [], 0⟩ [.term u] =
        .ok (.value (.ofVars [⟨"y"⟩, ⟨"z"⟩, ⟨"w"⟩])) := by
  intro s t
  obtain ⟨hvars, hground, hmem, hrun⟩ := vars_of_results s t
  have hlist : (t.vars.flatMap fun v => (s.apply (.var v)).vars).eraseDups =
      [⟨"y"⟩, ⟨"z"⟩, ⟨"w"⟩] := by decide
  have hz : ⟨"z"⟩ ∈ (s.apply t).vars := by
    rw [hvars, hlist]
    decide
  have hs : s.WellShaped := by decide
  have ht : t.WellShaped := by decide
  refine ⟨⟨hs, ht, hz⟩, hvars.trans hlist, fun h => absurd (hground.1 h) (by decide), ?_, ?_⟩
  · exact (hmem _ hz).resolve_left fun h => absurd h.1 (by decide)
  · obtain ⟨u, hu, hanswer, -⟩ := hrun hs ht ⟨[s], [], 0⟩ 0 rfl
    exact ⟨u, hu, hlist ▸ hanswer⟩

end Substitution

/-!
## Order of variables

Variables are listed in the order in which they come up.  In a term that is the order of the first
positions at which they stand (`pair_sublist_vars_iff`).  For a substitution the variables of each
bound term are listed first and then put together, and the result is the list of variables of any
application to the bound terms (`rangeVariables_eq_vars_app`).
-/

namespace Term

/-! ### Positions of variables -/

theorem variableNodes_eq (t : Term) : t.variableNodes =
    t.nodes.filterMap fun node => node.2.rootVar.map fun v => (node.1, v) := by
  refine List.filterMap_congr fun node _ => ?_
  cases node.2 <;> rfl

theorem mem_variableNodes {t : Term} {p : Position} {v : Var} :
    (p, v) ∈ t.variableNodes ↔ t.at? p = some (.var v) := by
  rw [variableNodes_eq, List.mem_filterMap, ← mem_nodes]
  constructor
  · rintro ⟨⟨q, u⟩, hmem, hu⟩
    cases u with
    | var w =>
      cases hu
      exact hmem
    | const c => cases hu
    | app f as => cases hu
  · exact fun hmem => ⟨(p, .var v), hmem, rfl⟩

theorem pairwise_variableNodes (t : Term) : t.variableNodes.Pairwise fun m n => m.1 < n.1 := by
  rw [variableNodes_eq]
  refine (pairwise_nodes t).filterMap _ fun m n hlt m' hm n' hn => ?_
  obtain ⟨v, -, rfl⟩ := Option.map_eq_some_iff.1 hm
  obtain ⟨w, -, rfl⟩ := Option.map_eq_some_iff.1 hn
  exact hlt

theorem mem_vars_iff_at? {t : Term} {v : Var} : v ∈ t.vars ↔ ∃ p, t.at? p = some (.var v) := by
  rw [mem_vars, ← map_snd_variableNodes, List.mem_map]
  simp [mem_variableNodes]

/-- A variable is listed before another if it stands at an earlier position first. -/
theorem pair_sublist_vars_iff {t : Term} {v w : Var} :
    [v, w].Sublist t.vars ↔ ∃ p q, IsLeast {p | t.at? p = some (.var v)} p ∧
      IsLeast {q | t.at? q = some (.var w)} q ∧ p < q := by
  rw [vars, ← map_snd_variableNodes, pair_sublist_eraseDups_iff_key (pairwise_variableNodes t)]
  simp only [mem_variableNodes]

theorem vars_eq_foldl (t : Term) : t.vars = t.occurrences.foldl noteNew [] :=
  (foldl_noteNew [] t.occurrences).symm

end Term

/-! ### Bound terms -/

namespace Substitution

theorem rangeVariables_eq_vars_app (s : Substitution) (f : Symbol) :
    s.rangeVariables = (Term.app f s.terms).vars := by
  rw [rangeVariables, Term.vars, Term.occurrences_app]
  exact eraseDups_flatMap_congr fun t _ => eraseDups_eraseDups t.occurrences

/-- The variables of a bound term are noted after those of the terms before it. -/
theorem rangeVariables_eq_foldl (s : Substitution) :
    s.rangeVariables = s.terms.foldl (fun seen t => t.vars.foldl noteNew seen) [] := by
  have hterms : ∀ (ts : List Term) (seen : List Var),
      ts.foldl (fun seen t => t.vars.foldl noteNew seen) seen.eraseDups =
        (seen ++ ts.flatMap Term.vars).eraseDups := by
    intro ts
    induction ts with
    | nil => exact fun seen => by rw [List.foldl_nil, List.flatMap_nil, List.append_nil]
    | cons t ts ih =>
      intro seen
      rw [List.foldl_cons, foldl_noteNew, ih, List.flatMap_cons, List.append_assoc]
  exact (hterms s.terms []).symm

theorem size_eq_length_terms (s : Substitution) : s.size = s.terms.length := by
  rw [size, terms, List.length_map]

/-- Going through the bound terms one after the other, and noting what is new among the variables of
each, comes to the same as going through an application to all of them: whichever symbol takes that
many arguments, the two answers are equal, order included.  Each variable of a term is listed once,
and a variable is listed before another if and only if the first position at which it stands comes
before the first of the other. -/
theorem variable_scans_agree :
    (∀ (store : Store) (i : Nat) (f : Symbol), (store.substitution i).size = f.arity →
      ∃ t, TermOperation.application.run store
          [.symbol f, .tuple ((store.substitution i).terms.map .term)] = .ok (.term t) ∧
        SubstitutionOperation.rangeVariables.run store [.substitution i] =
          TermOperation.vars.run store [.term t]) ∧
    (∀ (store : Store) (i : Nat),
      SubstitutionOperation.rangeVariables.run store [.substitution i] =
        .ok (.value (.ofVars
          ((store.substitution i).terms.foldl (fun seen t => t.vars.foldl noteNew seen) [])))) ∧
    ∀ (store : Store) (t : Term),
      TermOperation.vars.run store [.term t] = .ok (.value (.ofVars t.vars)) ∧
      t.vars = t.occurrences.foldl noteNew [] ∧
      t.vars.Nodup ∧
      (∀ v, v ∈ t.vars ↔ ∃ p, t.at? p = some (.var v)) ∧
      ∀ v w, [v, w].Sublist t.vars ↔ ∃ p q, IsLeast {p | t.at? p = some (.var v)} p ∧
        IsLeast {q | t.at? q = some (.var w)} q ∧ p < q := by
  refine ⟨fun store i f hsize => ?_, fun store i => ?_, fun store t =>
    ⟨rfl, t.vars_eq_foldl, nodup_eraseDups t.occurrences, fun v => Term.mem_vars_iff_at?,
      fun v w => Term.pair_sublist_vars_iff⟩⟩
  · rw [size_eq_length_terms] at hsize
    obtain ⟨haccepted, -⟩ := TermOperation.run_apply_eq store f (store.substitution i).terms
    refine ⟨.app f (store.substitution i).terms, ?_, ?_⟩
    · rw [haccepted .application (by decide), Symbol.apply, if_pos hsize]
      rfl
    · have hrun : SubstitutionOperation.rangeVariables.run store [.substitution i] =
          .ok (.value (.ofVars (store.substitution i).rangeVariables)) := rfl
      rw [hrun, rangeVariables_eq_vars_app _ f]
      rfl
  · rw [← rangeVariables_eq_foldl]
    rfl

/-- `{x -> g(y,z), w -> f(y), u -> g(w,z)}`: the variables of the bound terms are `y`, `z` and `w`,
as in any application to the three.  There `z` stands before `w` first, though `w` stands before `z`
in the last. -/
theorem variable_scans_agree_shared :
    let s : Substitution := ⟨[(⟨"x"⟩, .app ⟨"g", 2⟩ [.var ⟨"y"⟩, .var ⟨"z"⟩]),
      (⟨"w"⟩, .app ⟨"f", 1⟩ [.var ⟨"y"⟩]), (⟨"u"⟩, .app ⟨"g", 2⟩ [.var ⟨"w"⟩, .var ⟨"z"⟩])],
      by decide⟩
    let store : Store := ⟨[s], [], 0⟩
    let t : Term := .app ⟨"h", 3⟩ s.terms
    s.size = 3 ∧
    (∃ u, TermOperation.application.run store [.symbol ⟨"h", 3⟩, .tuple (s.terms.map .term)] =
        .ok (.term u) ∧
      SubstitutionOperation.rangeVariables.run store [.substitution 0] =
        TermOperation.vars.run store [.term u]) ∧
    TermOperation.vars.run store [.term t] = .ok (.value (.ofVars [⟨"y"⟩, ⟨"z"⟩, ⟨"w"⟩])) ∧
    ∃ p q, IsLeast {p | t.at? p = some (.var ⟨"z"⟩)} p ∧
      IsLeast {q | t.at? q = some (.var ⟨"w"⟩)} q ∧ p < q := by
  intro s store t
  obtain ⟨hagree, -, hlisted⟩ := variable_scans_agree
  obtain ⟨hanswer, -, -, -, horder⟩ := hlisted store t
  have hvars : t.vars = [⟨"y"⟩, ⟨"z"⟩, ⟨"w"⟩] := by decide
  refine ⟨rfl, hagree store 0 ⟨"h", 3⟩ rfl, hanswer.trans (by rw [hvars]), (horder _ _).1 ?_⟩
  rw [hvars]
  decide

end Substitution

end TermAlgebra
