import TermAlgebra.Proofs.Idempotence
import TermAlgebra.Proofs.TermReport

/-!
# Reports on substitutions

A check of a substitution lists what checks of the bound terms find, moved to the paths of the
bindings, and warns behind these of a trivial binding.  Then it warns where names clash and where
bound variables come back (`diagnostics_checkSubstitution`).  The warnings agree with the properties
that they are about: there are as many for trivial bindings as dropping these removes, and there is
one for variables that come back just if the substitution is not idempotent.

A path begins with the name of the bound variable in brackets.  Where no name holds a closing
bracket the path tells the binding, and no two errors have the same path.
-/

namespace TermAlgebra

variable {α : Type} [Declarable α]

/-- The warning about a variable that is bound to itself. -/
def trivialWarning (v : Var) : Diagnostic String :=
  ⟨"trivial_binding", .warning, "Variable '" ++ v.name ++ "' is bound to itself",
    some (bindingPath v)⟩

/-! ## Findings at bindings -/

/-- The errors at a binding are those of its term, found in a check of their own. -/
theorem errorsAt_bindingPath (sig : Signature α) (v : Var) (t : Term) :
    sig.errorsAt (bindingPath v) t =
      (checkTerm t sig).errors.map (Diagnostic.moved "term" (bindingPath v)) := by
  rw [errors_checkTerm, Signature.map_moved_errorsAt]

theorem bindingDiagnostics_eq (sig : Signature α) (b : Var × Term) :
    sig.bindingDiagnostics b =
      (checkTerm b.2 sig).errors.map (Diagnostic.moved "term" (bindingPath b.1)) ++
        if b.2 = .var b.1 then [trivialWarning b.1] else [] := by
  rw [Signature.bindingDiagnostics, errorsAt_bindingPath]
  by_cases htrivial : b.2 = .var b.1
  · rw [if_pos (Substitution.isTrivial_iff.2 htrivial), if_pos htrivial]
    rfl
  · rw [if_neg (mt Substitution.isTrivial_iff.1 htrivial), if_neg htrivial]

theorem flatMap_filter_warning (sig : Signature α) (bs : List (Var × Term)) :
    (bs.flatMap fun b => (sig.bindingDiagnostics b).filter fun d => d.severity == .warning) =
      (bs.filter Substitution.isTrivial).map fun b => trivialWarning b.1 := by
  induction bs with
  | nil => rfl
  | cons b bs ih =>
    rw [List.flatMap_cons, ih, Signature.bindingDiagnostics, List.filter_append,
      filter_warning_errorsAt, List.nil_append]
    by_cases htrivial : Substitution.isTrivial b = true
    · rw [if_pos htrivial, List.filter_cons_of_pos htrivial]
      rfl
    · rw [if_neg htrivial, List.filter_cons_of_neg htrivial]
      rfl

/-! ## Warnings -/

namespace Substitution

variable (s : Substitution)

theorem overlapWarnings_eq : s.overlapWarnings =
    if s.isIdempotent then [] else [overlapWarning (s.rangeVariables.filter (· ∈ s))] := by
  have hempty : s.overlap.isEmpty = true ↔ s.isIdempotent = true :=
    List.isEmpty_iff.trans overlap_eq_nil_iff
  rw [overlapWarnings]
  by_cases hidempotent : s.isIdempotent = true
  · rw [if_pos hidempotent, if_pos (hempty.2 hidempotent)]
  · rw [if_neg hidempotent, if_neg (mt hempty.1 hidempotent)]
    rfl

theorem filter_warning_overlapWarnings :
    (s.overlapWarnings.filter fun d => d.severity == .warning) = s.overlapWarnings := by
  rw [overlapWarnings]
  split <;> rfl

theorem size_withoutTrivial :
    (s.bindings.filter isTrivial).length + s.withoutTrivial.size = s.size :=
  List.length_eq_length_filter_add isTrivial |>.symm

/-- A trivial binding brings its own variable back. -/
theorem isIdempotent_eq_false_of_mem {b : Var × Term} (hb : b ∈ s.bindings)
    (htrivial : isTrivial b = true) : s.isIdempotent = false := by
  rw [← Bool.not_eq_true, isIdempotent_iff_apply_eq_self]
  exact fun h => (h b hb).1 (isTrivial_iff.1 htrivial)

end Substitution

theorem warnings_checkSubstitution (s : Substitution) (sig : Signature α) :
    (checkSubstitution s sig).warnings =
      ((s.bindings.filter Substitution.isTrivial).map fun b => trivialWarning b.1) ++
        (clashNames (s.bindings.flatMap fun b => b.2.constants)
          (s.bindings.flatMap fun b => b.2.nullary)).map clashWarning ++ s.overlapWarnings := by
  rw [checkSubstitution_eq, Report.warnings, List.filter_append, List.filter_append,
    List.filter_flatMap, flatMap_filter_warning, filter_warning_clashWarnings,
    Substitution.filter_warning_overlapWarnings]

/-! ## Numbers of warnings -/

theorem countP_check_of_forall {ds : List (Diagnostic String)} {check : String}
    (h : ∀ d ∈ ds, d.check = check) (c : String) :
    ds.countP (·.check == c) = if check = c then ds.length else 0 := by
  by_cases hc : check = c
  · rw [if_pos hc, List.countP_eq_length]
    exact fun d hd => beq_iff_eq.2 ((h d hd).trans hc)
  · rw [if_neg hc, List.countP_eq_zero]
    exact fun d hd hd' => hc ((h d hd).symm.trans (beq_iff_eq.1 hd'))

/-- Each of the three kinds of warnings has a check of its own. -/
theorem countP_check_warnings (s : Substitution) (sig : Signature α) (c : String) :
    (checkSubstitution s sig).warnings.countP (·.check == c) =
      (if "trivial_binding" = c then (s.bindings.filter Substitution.isTrivial).length else 0) +
      (if "symbol_constant_clash" = c then
        (clashNames (s.bindings.flatMap fun b => b.2.constants)
          (s.bindings.flatMap fun b => b.2.nullary)).length else 0) +
      (if "not_idempotent" = c then s.overlapWarnings.length else 0) := by
  have htrivial : ∀ d ∈ (s.bindings.filter Substitution.isTrivial).map fun b => trivialWarning b.1,
      d.check = "trivial_binding" := List.forall_mem_map.2 fun _ _ => rfl
  have hclash : ∀ names : List String, ∀ d ∈ names.map clashWarning,
      d.check = "symbol_constant_clash" := fun names => List.forall_mem_map.2 fun _ _ => rfl
  have hoverlap : ∀ d ∈ s.overlapWarnings, d.check = "not_idempotent" := by
    rw [Substitution.overlapWarnings]
    split <;> simp [Substitution.overlapWarning]
  rw [warnings_checkSubstitution, List.countP_append, List.countP_append,
    countP_check_of_forall htrivial, countP_check_of_forall (hclash _),
    countP_check_of_forall hoverlap, List.length_map, List.length_map]

theorem countP_trivialWarnings (s : Substitution) (sig : Signature α) :
    (checkSubstitution s sig).warnings.countP (·.check == "trivial_binding") =
      (s.bindings.filter Substitution.isTrivial).length := by
  simp [countP_check_warnings]

theorem countP_overlapWarnings (s : Substitution) (sig : Signature α) :
    (checkSubstitution s sig).warnings.countP (·.check == "not_idempotent") =
      if s.isIdempotent then 0 else 1 := by
  have hlength : s.overlapWarnings.length = if s.isIdempotent then 0 else 1 := by
    rw [Substitution.overlapWarnings_eq]
    split <;> rfl
  simp [countP_check_warnings, hlength]

/-! ## Paths -/

theorem bindingPath_append_inj {v w : Var} {r r' : String} (hv : Text.FreeOf [']'] v.name)
    (hw : Text.FreeOf [']'] w.name) (h : bindingPath v ++ r = bindingPath w ++ r') : v = w := by
  have htext : ∀ (u : Var) (r : String), (bindingPath u ++ r).toList =
      "subst[".toList ++ (u.name.toList ++ ']' :: r.toList) := by
    intro u r
    simp [bindingPath]
  have hnames : v.name.toList ++ ']' :: r.toList = w.name.toList ++ ']' :: r'.toList := by
    have hlists := congrArg String.toList h
    rw [htext, htext] at hlists
    exact List.append_cancel_left hlists
  have hstop : ∀ cs : List Char, Text.Stops [']'] (']' :: cs) := fun cs => by simp [Text.stops_cons]
  have hname : v.name = w.name := (Text.toList_append_inj hv hw (hstop _) (hstop _) hnames).1
  exact Var.ext hname

/-- Paths of errors in different bindings differ by the names of the variables, paths in one binding
by the positions. -/
theorem nodup_paths_checkSubstitution {s : Substitution} (sig : Signature α)
    (h : ∀ v ∈ s.domain, Text.FreeOf [']'] v.name) :
    ((checkSubstitution s sig).errors.map Diagnostic.path).Nodup := by
  have hdistinct : s.bindings.Pairwise fun b c => b.1 ≠ c.1 := List.pairwise_map.1 s.distinct
  rw [errors_checkSubstitution, List.map_flatMap, List.nodup_flatMap]
  refine ⟨fun b _ => sig.nodup_paths_errorsAt _ b.2, ?_⟩
  refine hdistinct.imp_of_mem fun {b c} hb hc hne path hpb hpc => ?_
  obtain ⟨d, hd, rfl⟩ := List.mem_map.1 hpb
  obtain ⟨e, he, hpath⟩ := List.mem_map.1 hpc
  obtain ⟨p, _, m, -, -, rfl⟩ := Signature.mem_errorsAt_iff.1 hd
  obtain ⟨q, _, n, -, -, rfl⟩ := Signature.mem_errorsAt_iff.1 he
  have hpaths : Position.path (bindingPath c.1) q = Position.path (bindingPath b.1) p :=
    Option.some.inj hpath
  rw [Position.path_eq_append _ p, Position.path_eq_append _ q] at hpaths
  have hvar : c.1 = b.1 := bindingPath_append_inj (h c.1 (Substitution.mem_of_mem_bindings hc))
    (h b.1 (Substitution.mem_of_mem_bindings hb)) hpaths
  exact hne hvar.symm

/-! ## The report -/

/-- The report on a substitution, and how it agrees with checks of the bound terms, with dropping
the trivial bindings and with idempotence. -/
theorem diagnostics_checkSubstitution (s : Substitution) (sig : Signature α) :
    (∃ names : List String, names.Pairwise (· < ·) ∧
      (∀ n, n ∈ names ↔
        (∃ b ∈ s.bindings, n ∈ b.2.constants) ∧ ∃ b ∈ s.bindings, n ∈ b.2.nullary) ∧
      (checkSubstitution s sig).diagnostics =
        (s.bindings.flatMap fun b =>
          (checkTerm b.2 sig).errors.map (Diagnostic.moved "term" (bindingPath b.1)) ++
            if b.2 = .var b.1 then [trivialWarning b.1] else []) ++
        names.map clashWarning ++
        if s.isIdempotent then []
        else [Substitution.overlapWarning (s.rangeVariables.filter (· ∈ s))]) ∧
    (checkSubstitution s sig).warnings.countP (·.check == "not_idempotent") =
      (if s.isIdempotent then 0 else 1) ∧
    (checkSubstitution s sig).warnings.countP (·.check == "trivial_binding") +
      s.withoutTrivial.size = s.size ∧
    ((∃ d ∈ (checkSubstitution s sig).warnings, d.check = "trivial_binding") →
      ∃ d ∈ (checkSubstitution s sig).warnings, d.check = "not_idempotent") ∧
    ((∀ v ∈ s.domain, Text.FreeOf [']'] v.name) →
      ((checkSubstitution s sig).errors.map Diagnostic.path).Nodup) := by
  refine ⟨⟨clashNames (s.bindings.flatMap fun b => b.2.constants)
    (s.bindings.flatMap fun b => b.2.nullary), pairwise_lt_clashNames _ _, fun n => ?_, ?_⟩,
    countP_overlapWarnings s sig, ?_, ?_, nodup_paths_checkSubstitution sig⟩
  · rw [mem_clashNames, List.mem_flatMap, List.mem_flatMap]
  · rw [checkSubstitution_eq, Substitution.overlapWarnings_eq,
      List.flatMap_congr fun b _ => bindingDiagnostics_eq sig b]
  · rw [countP_trivialWarnings, s.size_withoutTrivial]
  · rintro ⟨d, hd, hcheck⟩
    have hpos : 0 < (s.bindings.filter Substitution.isTrivial).length := by
      rw [← countP_trivialWarnings s sig, List.countP_pos_iff]
      exact ⟨d, hd, beq_iff_eq.2 hcheck⟩
    obtain ⟨b, hb⟩ := List.exists_mem_of_length_pos hpos
    obtain ⟨hmem, htrivial⟩ := List.mem_filter.1 hb
    have hcount := countP_overlapWarnings s sig
    rw [s.isIdempotent_eq_false_of_mem hmem htrivial] at hcount
    have hone : 0 < (checkSubstitution s sig).warnings.countP (·.check == "not_idempotent") := by
      simp [hcount]
    obtain ⟨e, he, hecheck⟩ := List.countP_pos_iff.1 hone
    exact ⟨e, he, beq_iff_eq.1 hecheck⟩

/-- `{x -> k(c), y -> y, z -> g(k(c()))}` where `k` takes two arguments: two errors, one trivial
binding, and `y` comes back. -/
theorem diagnostics_checkSubstitution_mixed :
    let sig : Signature String := ⟨[⟨"g", 1⟩, ⟨"k", 2⟩, ⟨"c", 0⟩], ["c"]⟩
    let s : Substitution := ⟨[(⟨"x"⟩, .app ⟨"k", 1⟩ [.const "c"]), (⟨"y"⟩, .var ⟨"y"⟩),
      (⟨"z"⟩, .app ⟨"g", 1⟩ [.app ⟨"k", 1⟩ [.app ⟨"c", 0⟩ []]])], by decide⟩
    (∀ v ∈ s.domain, Text.FreeOf [']'] v.name) ∧
    (checkSubstitution s sig).errors.map Diagnostic.path =
      [some "subst[x]", some "subst[z].args[0]"] ∧
    ((checkSubstitution s sig).errors.map Diagnostic.path).Nodup ∧
    (checkSubstitution s sig).warnings.countP (·.check == "trivial_binding") = 1 ∧
    ∃ d ∈ (checkSubstitution s sig).warnings, d.check = "not_idempotent" := by
  intro sig s
  obtain ⟨-, -, hcount, haccompanied, hnodup⟩ := diagnostics_checkSubstitution s sig
  have hnames : ∀ v ∈ s.domain, Text.FreeOf [']'] v.name := by decide
  have hone : (checkSubstitution s sig).warnings.countP (·.check == "trivial_binding") = 1 := by
    have hsize : s.size = 3 := by decide
    have hleft : s.withoutTrivial.size = 2 := by decide
    omega
  have hpos : 0 < (checkSubstitution s sig).warnings.countP (·.check == "trivial_binding") := by
    omega
  obtain ⟨d, hd, hcheck⟩ := List.countP_pos_iff.1 hpos
  refine ⟨hnames, ?_, hnodup hnames, hone, haccompanied ⟨d, hd, beq_iff_eq.1 hcheck⟩⟩
  rw [errors_checkSubstitution]
  decide

/-- With a closing bracket in its name, a variable can be taken for a place in another term. -/
example : Position.path (bindingPath ⟨"x"⟩) [0] = bindingPath ⟨"x].args[0"⟩ := by decide

end TermAlgebra
