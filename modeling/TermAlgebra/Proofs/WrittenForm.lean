import Mathlib.Data.List.Forall2
import TermAlgebra.Proofs.SkeletonText
import TermAlgebra.Substitution

/-!
# Written forms can be read back

The written form of a term tells its skeleton and nothing else, provided that brackets and commas
occur in no name (`render_eq_render_iff`).  So it is with the written forms of equations and
substitutions if no name has a blank either (`written_alike_iff`): the first blank ends the left
side of an equation and the variable of a binding, and a bound term ends at the comma before the
next binding.
-/

namespace TermAlgebra

namespace Term

/-! ## Terms -/

theorem toList_renderRest {as : List Term} (ih : ∀ a ∈ as, a.render.toList = a.skeleton.text) :
    (renderRest as).toList ++ [')'] = Skeleton.restText (skeletonArgs as) := by
  induction as with
  | nil => rfl
  | cons a as ihas =>
    have hhead := ih a List.mem_cons_self
    have htail := ihas fun x hx => ih x (List.mem_cons_of_mem a hx)
    simp [renderRest, skeletonArgs, Skeleton.restText, hhead, ← htail]

/-- The written form of a term is that of its skeleton. -/
theorem toList_render (t : Term) : t.render.toList = t.skeleton.text := by
  induction t using inductionOn with
  | var v => simp [skeleton, Skeleton.text]
  | const c => simp [skeleton, Skeleton.text]
  | app f as ih =>
    cases as with
    | nil => simp [skeleton, Skeleton.text]
    | cons a as =>
      have hhead := ih a List.mem_cons_self
      have htail := toList_renderRest fun x hx => ih x (List.mem_cons_of_mem a hx)
      simp [skeleton, Skeleton.text, hhead, ← htail]

theorem render_eq_of_skeleton_eq {t u : Term} (h : t.skeleton = u.skeleton) :
    t.render = u.render := by
  rw [← String.toList_inj, toList_render, toList_render, h]

theorem names_skeleton (t : Term) : t.skeleton.names = t.names := by
  induction t using inductionOn with
  | var v => simp [skeleton, Skeleton.names, names]
  | const c => simp [skeleton, Skeleton.names, names]
  | app f as ih =>
    cases as with
    | nil => simp [skeleton, Skeleton.names, names, namesArgs]
    | cons a as =>
      have hargs : Skeleton.namesRest (skeletonArgs as) = namesArgs as := by
        rw [Skeleton.namesRest_eq, skeletonArgs_eq, namesArgs_eq, List.flatMap_map]
        exact List.flatMap_congr fun x hx => ih x (List.mem_cons_of_mem a hx)
      simp [skeleton, Skeleton.names, names, namesArgs, ih a List.mem_cons_self, hargs]

/-- None of the given characters occurs in a name of a term. -/
def NamesFreeOf (marks : List Char) (t : Term) : Prop := ∀ n ∈ t.names, Text.FreeOf marks n

instance (marks : List Char) (t : Term) : Decidable (NamesFreeOf marks t) :=
  inferInstanceAs (Decidable (∀ n ∈ t.names, Text.FreeOf marks n))

variable {marks rest rest' : List Char} {t u : Term}

theorem NamesFreeOf.skeleton (h : NamesFreeOf marks t) : t.skeleton.NamesFreeOf marks := by
  rw [Skeleton.NamesFreeOf, names_skeleton]
  exact h

/-- The written form of a term with something behind it tells the skeleton and what is behind. -/
theorem toList_render_append_inj (hmarks : ['(', ')', ','] ⊆ marks) (ht : NamesFreeOf marks t)
    (hu : NamesFreeOf marks u) (hrest : Skeleton.Ends marks rest)
    (hrest' : Skeleton.Ends marks rest') (h : t.render.toList ++ rest = u.render.toList ++ rest') :
    t.skeleton = u.skeleton ∧ rest = rest' := by
  rw [toList_render, toList_render] at h
  exact Skeleton.text_append_inj hmarks ht.skeleton hu.skeleton hrest hrest' h

theorem skeleton_eq_of_render_eq (hmarks : ['(', ')', ','] ⊆ marks) (ht : NamesFreeOf marks t)
    (hu : NamesFreeOf marks u) (h : t.render = u.render) : t.skeleton = u.skeleton := by
  have hend : Skeleton.Ends marks [] := Skeleton.ends_nil marks
  exact (toList_render_append_inj hmarks ht hu hend hend (by rw [h])).1

/-- Terms without brackets and commas in their names are written alike if and only if they have the
same skeleton. -/
theorem render_eq_render_iff (ht : NamesFreeOf ['(', ')', ','] t)
    (hu : NamesFreeOf ['(', ')', ','] u) : t.render = u.render ↔ t.skeleton = u.skeleton :=
  ⟨skeleton_eq_of_render_eq (List.Subset.refl _) ht hu, render_eq_of_skeleton_eq⟩

/-- A symbol before a constant without a name is written like the symbol before a symbol without a
name or arguments, and otherwise than before two of them. -/
theorem render_eq_render_iff_nameless :
    let f (as : List Term) : Term := .app ⟨"f", as.length⟩ as
    let nameless : Term := .app ⟨"", 0⟩ []
    (NamesFreeOf ['(', ')', ','] (f [.const ""]) ∧ NamesFreeOf ['(', ')', ','] (f [nameless])) ∧
    (f [.const ""]).render = (f [nameless]).render ∧
    (f [.const ""]).render ≠ (f [nameless, .var ⟨""⟩]).render := by
  intro f nameless
  have hconst : NamesFreeOf ['(', ')', ','] (f [.const ""]) := by decide
  have hone : NamesFreeOf ['(', ')', ','] (f [nameless]) := by decide
  have htwo : NamesFreeOf ['(', ')', ','] (f [nameless, .var ⟨""⟩]) := by decide
  refine ⟨⟨hconst, hone⟩, (render_eq_render_iff hconst hone).2 rfl, fun h => ?_⟩
  have hskeleton := (render_eq_render_iff hconst htwo).1 h
  simp [f, nameless, skeleton, skeletonArgs] at hskeleton

end Term

/-! ## Equations -/

/-- What may stand in no name, so that equations and substitutions can be read back. -/
def blankAndMarks : List Char := [' ', '(', ')', ',']

theorem marks_subset : ['(', ')', ','] ⊆ blankAndMarks := List.subset_cons_self _ _

/-- Behind a blank nothing of a term is left. -/
theorem ends_blank (rest : List Char) : Skeleton.Ends blankAndMarks (' ' :: rest) :=
  Skeleton.ends_cons.2 ⟨List.mem_cons_self, by decide⟩

namespace Equation

/-- None of the given characters occurs in a name of an equation. -/
def NamesFreeOf (marks : List Char) (e : Equation) : Prop :=
  e.lhs.NamesFreeOf marks ∧ e.rhs.NamesFreeOf marks

instance (marks : List Char) (e : Equation) : Decidable (NamesFreeOf marks e) :=
  inferInstanceAs (Decidable (_ ∧ _))

theorem toList_render (e : Equation) :
    e.render.toList = e.lhs.render.toList ++ ' ' :: '=' :: ' ' :: e.rhs.render.toList := by
  simp [render]

theorem skeletons_eq_of_render_eq {e e' : Equation} (he : e.NamesFreeOf blankAndMarks)
    (he' : e'.NamesFreeOf blankAndMarks) (h : e.render = e'.render) :
    e.lhs.skeleton = e'.lhs.skeleton ∧ e.rhs.skeleton = e'.rhs.skeleton := by
  have htext := congrArg String.toList h
  rw [toList_render, toList_render] at htext
  obtain ⟨hlhs, hrest⟩ := Term.toList_render_append_inj marks_subset he.1 he'.1 (ends_blank _)
    (ends_blank _) htext
  have hrhs : e.rhs.render = e'.rhs.render := by
    simpa [String.toList_inj] using hrest
  exact ⟨hlhs, Term.skeleton_eq_of_render_eq marks_subset he.2 he'.2 hrhs⟩

end Equation

/-! ## Substitutions -/

namespace Substitution

/-- None of the given characters occurs in the name of a bound variable or in a name of its term. -/
def BindingFreeOf (marks : List Char) (b : Var × Term) : Prop :=
  Text.FreeOf marks b.1.name ∧ b.2.NamesFreeOf marks

instance (marks : List Char) (b : Var × Term) : Decidable (BindingFreeOf marks b) :=
  inferInstanceAs (Decidable (_ ∧ _))

/-- None of the given characters occurs in a name of a substitution. -/
def NamesFreeOf (marks : List Char) (s : Substitution) : Prop :=
  ∀ b ∈ s.bindings, BindingFreeOf marks b

instance (marks : List Char) (s : Substitution) : Decidable (NamesFreeOf marks s) :=
  inferInstanceAs (Decidable (∀ b ∈ s.bindings, BindingFreeOf marks b))

/-- Two bindings of one variable, to terms with one skeleton. -/
def Alike (b c : Var × Term) : Prop := b.1 = c.1 ∧ b.2.skeleton = c.2.skeleton

/-- The written form of the bindings after the first, each behind a comma and a blank. -/
def restText (bs : List (Var × Term)) : List Char :=
  bs.flatMap fun b => ',' :: ' ' :: (renderBinding b).toList

theorem toList_renderBinding (b : Var × Term) :
    (renderBinding b).toList =
      b.1.name.toList ++ ' ' :: '-' :: '>' :: ' ' :: b.2.render.toList := by
  simp [renderBinding]

theorem toList_intercalate (b : Var × Term) (bs : List (Var × Term)) :
    (", ".intercalate ((b :: bs).map renderBinding)).toList =
      (renderBinding b).toList ++ restText bs := by
  induction bs generalizing b with
  | nil => simp [restText]
  | cons c bs ih =>
    have htail := ih c
    rw [List.map_cons] at htail
    rw [List.map_cons, List.map_cons, String.intercalate_cons_cons, String.toList_append, htail]
    simp [restText]

variable {b c : Var × Term} {bs cs : List (Var × Term)} {rest rest' : List Char}

theorem renderBinding_append_inj
    (hb : BindingFreeOf blankAndMarks b) (hc : BindingFreeOf blankAndMarks c)
    (hrest : Skeleton.Ends blankAndMarks rest) (hrest' : Skeleton.Ends blankAndMarks rest')
    (h : (renderBinding b).toList ++ rest = (renderBinding c).toList ++ rest') :
    Alike b c ∧ rest = rest' := by
  rw [toList_renderBinding, toList_renderBinding, List.append_assoc, List.append_assoc] at h
  obtain ⟨hname, hbehind⟩ :=
    Text.toList_append_inj hb.1 hc.1 (ends_blank _).stops (ends_blank _).stops h
  have hterm : b.2.render.toList ++ rest = c.2.render.toList ++ rest' := by
    simpa using hbehind
  obtain ⟨hskeleton, hrests⟩ :=
    Term.toList_render_append_inj marks_subset hb.2 hc.2 hrest hrest' hterm
  exact ⟨⟨Var.ext hname, hskeleton⟩, hrests⟩

theorem ends_restText (bs : List (Var × Term)) : Skeleton.Ends blankAndMarks (restText bs) := by
  cases bs with
  | nil => exact Skeleton.ends_nil _
  | cons b bs => exact Skeleton.ends_cons.2 ⟨by decide, by decide⟩

/-- The bindings after the first are read one by one. -/
theorem alike_of_restText_eq
    (hbs : ∀ b ∈ bs, BindingFreeOf blankAndMarks b)
    (hcs : ∀ c ∈ cs, BindingFreeOf blankAndMarks c)
    (h : restText bs = restText cs) : List.Forall₂ Alike bs cs := by
  induction bs generalizing cs with
  | nil =>
    cases cs with
    | nil => exact .nil
    | cons c cs => simp [restText] at h
  | cons b bs ih =>
    cases cs with
    | nil => simp [restText] at h
    | cons c cs =>
      have htext : (renderBinding b).toList ++ restText bs =
          (renderBinding c).toList ++ restText cs := by
        simpa [restText] using h
      obtain ⟨halike, hrests⟩ := renderBinding_append_inj (hbs b List.mem_cons_self)
        (hcs c List.mem_cons_self) (ends_restText bs) (ends_restText cs) htext
      exact .cons halike (ih (fun x hx => hbs x (List.mem_cons_of_mem b hx))
        (fun x hx => hcs x (List.mem_cons_of_mem c hx)) hrests)

/-- The text of a first binding has a blank, so that no bindings are written like no others. -/
theorem alike_of_intercalate_eq
    (hbs : ∀ b ∈ bs, BindingFreeOf blankAndMarks b)
    (hcs : ∀ c ∈ cs, BindingFreeOf blankAndMarks c)
    (h : (", ".intercalate (bs.map renderBinding)).toList =
      (", ".intercalate (cs.map renderBinding)).toList) : List.Forall₂ Alike bs cs := by
  cases bs with
  | nil =>
    cases cs with
    | nil => exact .nil
    | cons c cs =>
      rw [toList_intercalate, toList_renderBinding] at h
      simp at h
  | cons b bs =>
    cases cs with
    | nil =>
      rw [toList_intercalate, toList_renderBinding] at h
      simp at h
    | cons c cs =>
      rw [toList_intercalate, toList_intercalate] at h
      obtain ⟨halike, hrests⟩ := renderBinding_append_inj (hbs b List.mem_cons_self)
        (hcs c List.mem_cons_self) (ends_restText bs) (ends_restText cs) h
      exact .cons halike (alike_of_restText_eq (fun x hx => hbs x (List.mem_cons_of_mem b hx))
        (fun x hx => hcs x (List.mem_cons_of_mem c hx)) hrests)

theorem alike_of_render_eq {s s' : Substitution} (hs : s.NamesFreeOf blankAndMarks)
    (hs' : s'.NamesFreeOf blankAndMarks) (h : s.render = s'.render) :
    List.Forall₂ Alike s.bindings s'.bindings := by
  have hbody : ", ".intercalate (s.bindings.map renderBinding) =
      ", ".intercalate (s'.bindings.map renderBinding) := by
    simpa [render] using h
  exact alike_of_intercalate_eq hs hs' (congrArg String.toList hbody)

theorem renderBinding_eq_of_alike (h : Alike b c) : renderBinding b = renderBinding c := by
  rw [renderBinding, renderBinding, h.1, Term.render_eq_of_skeleton_eq h.2]

theorem map_renderBinding_eq_of_alike (h : List.Forall₂ Alike bs cs) :
    bs.map renderBinding = cs.map renderBinding := by
  induction h with
  | nil => rfl
  | cons halike _ ih => rw [List.map_cons, List.map_cons, renderBinding_eq_of_alike halike, ih]

theorem render_eq_of_alike {s s' : Substitution} (h : List.Forall₂ Alike s.bindings s'.bindings) :
    s.render = s'.render := by
  rw [render, render, map_renderBinding_eq_of_alike h]

end Substitution

/-- Where no name has a bracket, a comma or a blank, substitutions are written alike if and only if
they bind the same variables in the same order to terms with the same skeletons, and equations if
and only if their sides have the same skeletons. -/
theorem written_alike_iff :
    (∀ s₁ s₂ : Substitution, s₁.NamesFreeOf blankAndMarks → s₂.NamesFreeOf blankAndMarks →
      (s₁.render = s₂.render ↔
        List.Forall₂ (fun b c => b.1 = c.1 ∧ b.2.skeleton = c.2.skeleton)
          s₁.bindings s₂.bindings)) ∧
    ∀ e₁ e₂ : Equation, e₁.NamesFreeOf blankAndMarks → e₂.NamesFreeOf blankAndMarks →
      (e₁.render = e₂.render ↔
        e₁.lhs.skeleton = e₂.lhs.skeleton ∧ e₁.rhs.skeleton = e₂.rhs.skeleton) := by
  refine ⟨fun s₁ s₂ h₁ h₂ => ⟨Substitution.alike_of_render_eq h₁ h₂,
    Substitution.render_eq_of_alike⟩, fun e₁ e₂ h₁ h₂ => ⟨Equation.skeletons_eq_of_render_eq h₁ h₂,
    fun ⟨hlhs, hrhs⟩ => ?_⟩⟩
  rw [Equation.render, Equation.render, Term.render_eq_of_skeleton_eq hlhs,
    Term.render_eq_of_skeleton_eq hrhs]

/-- Braces, arrows and equality signs may occur in names.  With them a constant is written like a
symbol without arguments, and the order of the bindings and of the sides is seen. -/
theorem written_alike_iff_braces :
    let s : Substitution := ⟨[(⟨"\x7b"⟩, .const "->"), (⟨""⟩, .var ⟨"\x7d"⟩)], by decide⟩
    let t : Substitution := ⟨[(⟨"\x7b"⟩, .app ⟨"->", 0⟩ []), (⟨""⟩, .const "\x7d")], by decide⟩
    let u : Substitution := ⟨[(⟨""⟩, .const "\x7d"), (⟨"\x7b"⟩, .const "->")], by decide⟩
    let e : Equation := ⟨.const "=", .const ""⟩
    let g : Equation := ⟨.app ⟨"=", 0⟩ [], .var ⟨""⟩⟩
    (s.NamesFreeOf blankAndMarks ∧ t.NamesFreeOf blankAndMarks ∧ u.NamesFreeOf blankAndMarks) ∧
    (s.render = t.render ∧ s.render ≠ u.render) ∧
    (e.NamesFreeOf blankAndMarks ∧ g.NamesFreeOf blankAndMarks) ∧
    e.render = g.render ∧ e.render ≠ (⟨g.rhs, g.lhs⟩ : Equation).render := by
  intro s t u e g
  have hs : s.NamesFreeOf blankAndMarks := by decide
  have ht : t.NamesFreeOf blankAndMarks := by decide
  have hu : u.NamesFreeOf blankAndMarks := by decide
  have he : e.NamesFreeOf blankAndMarks := by decide
  have hg : g.NamesFreeOf blankAndMarks := by decide
  have hst : s.render = t.render :=
    (written_alike_iff.1 s t hs ht).2 (.cons ⟨rfl, rfl⟩ (.cons ⟨rfl, rfl⟩ .nil))
  have hsu : s.render ≠ u.render := fun h => by
    have halike := (written_alike_iff.1 s u hs hu).1 h
    simp [s, u] at halike
  have heg : e.render = g.render := (written_alike_iff.2 e g he hg).2 ⟨rfl, rfl⟩
  have hswapped : e.render ≠ (⟨g.rhs, g.lhs⟩ : Equation).render := fun h => by
    have hskeletons := (written_alike_iff.2 e ⟨g.rhs, g.lhs⟩ he (by decide)).1 h
    simp [e, g, Term.skeleton] at hskeletons
  exact ⟨⟨hs, ht, hu⟩, ⟨hst, hsu⟩, ⟨he, hg⟩, heg, hswapped⟩

end TermAlgebra
