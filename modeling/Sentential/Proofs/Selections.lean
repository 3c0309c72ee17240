import Mathlib.Data.List.Nodup
import Mathlib.Data.List.Perm.Basic
import Sentential.Proofs.Arrangements
import Sentential.Proofs.Printing
import Sentential.Proofs.Validity

/-!
# `Sentential.Proofs.Selections` — statements selected in any sequence

Forms are searched with statements as they were selected, and the search commits itself to the first premise that
the first statement fits. So another sequence of the same statements may give other bindings, and other results.
It does not give other forms: whoever finds an arrangement of the premises for one sequence of the statements can
rearrange it for the other, and the search misses no arrangement (`matchPremises_isSome_iff`).

Nor does the sequence matter to which variables a match binds. These are the variables of the premises, so what
a conclusion leaves open is known from the form: a placeholder stands for a variable that no premise has. Results
are listed by their texts, which hides nothing of this, because a placeholder shows in the text.

## Contents
* `isSome_matchPremises_perm` — whether premises match does not depend on the sequence of the statements
* `Catalogue.map_form_searchForms` — the forms that a search finds
* `ArgumentForm.get?_bindings_eq_none_iff`, `count_derived`, … — what a match binds and lists
* `FormMatch.MarksIntroduced`, `searchForms_perm` — both together
-/

namespace Sentential

variable {statements statements' : List Statement}

/-! ## The forms found -/

/-- **Whether premises match does not depend on the sequence of the statements.** -/
theorem isSome_matchPremises_perm (h : statements.Perm statements') (premises : List Statement) (b : Bindings) :
    (matchPremises premises statements b).isSome = (matchPremises premises statements' b).isSome := by
  have hone : ∀ {statements statements' : List Statement}, statements.Perm statements' →
      (matchPremises premises statements b).isSome = true →
      (matchPremises premises statements' b).isSome = true := by
    intro statements statements' h hsome
    obtain ⟨c, arrangement, hext, hperm, hreal⟩ := matchPremises_isSome_iff.mp hsome
    -- the premises are rearranged as the statements are
    obtain ⟨arrangement', hreal', hperm'⟩ := List.perm_comp_forall₂ h.symm hreal.flip
    exact matchPremises_isSome_iff.mpr ⟨c, arrangement', hext, hperm'.trans hperm, hreal'.flip⟩
  exact Bool.eq_iff_iff.mpr ⟨hone h, hone h.symm⟩

theorem ArgumentForm.isSome_match? (form : ArgumentForm Statement) (statements : List Statement) :
    (form.match? statements).isSome = (matchPremises form.premises statements Assignment.empty).isSome := by
  unfold ArgumentForm.match?
  cases matchPremises form.premises statements Assignment.empty <;> rfl

/-- The forms found are those whose premises match, in the sequence of the catalogue. -/
theorem Catalogue.map_form_searchForms (c : Catalogue Statement) (medium : Medium) (statements : List Statement)
    (e : Explanation) :
    (c.searchForms medium statements e).1.map FormMatch.form =
      (c.candidates statements).filter fun form =>
        (matchPremises form.premises statements Assignment.empty).isSome := by
  show ((c.candidates statements).filterMap (·.match? statements)).map FormMatch.form = _
  rw [List.map_filterMap, ← List.filterMap_eq_filter]
  refine List.filterMap_congr fun form _ => ?_
  show (form.match? statements).map FormMatch.form =
    if (matchPremises form.premises statements Assignment.empty).isSome then some form else none
  rw [← form.isSome_match?]
  cases hmatch : form.match? statements with
  | none => rfl
  | some m =>
    obtain ⟨hform, _⟩ := ArgumentForm.match?_eq_some hmatch
    exact congrArg some hform

/-! ## What a match binds and lists -/

namespace ArgumentForm

variable {form : ArgumentForm Statement} {m : FormMatch}

/-- The variables bound are those of the premises, each once. -/
theorem keys_bindings_perm (h : form.match? statements = some m) :
    m.bindings.keys.Perm (distinct (form.premises.flatMap Formula.leaves)) := by
  obtain ⟨_, hmatch, _⟩ := match?_eq_some h
  have hnodup : m.bindings.keys.Nodup := m.bindings.nodup
  refine (List.perm_ext_iff_of_nodup hnodup (nodup_distinct _)).mpr fun x => ?_
  have hempty : x ∉ (Assignment.empty : Bindings).keys := List.not_mem_nil
  rw [mem_keys_matchPremises hmatch, or_iff_right hempty, mem_distinct, List.mem_flatMap]

/-- Unbound is what no premise has. -/
theorem get?_bindings_eq_none_iff (h : form.match? statements = some m) {x : Symbol} :
    m.bindings.get? x = none ↔ ∀ p ∈ form.premises, x ∉ p.leaves := by
  rw [Assignment.get?_eq_none_iff, (keys_bindings_perm h).mem_iff, mem_distinct, List.mem_flatMap]
  simp only [not_exists, not_and]

/-- The results are those of the conclusions, without those whose text has occurred. -/
theorem derived_eq (h : form.match? statements = some m) :
    m.derived = distinctBy Formula.text (form.conclusions.map (substitute · m.bindings)) := by
  unfold ArgumentForm.match? at h
  split at h
  · exact absurd h (by simp)
  · obtain rfl := Option.some.inj h
    rfl

/-- The text of each conclusion's result is listed once. -/
theorem count_derived (h : form.match? statements = some m) {conclusion : Statement}
    (hc : conclusion ∈ form.conclusions) :
    (m.derived.map Formula.text).count (substitute conclusion m.bindings).text = 1 := by
  rw [derived_eq h, map_distinctBy]
  refine List.count_eq_one_of_mem (nodup_distinct _) (mem_distinct.mpr ?_)
  exact List.mem_map_of_mem (List.mem_map_of_mem hc)

/-- What is substituted after a match can be written if the statements can. -/
theorem writable_substitute (h : form.match? statements = some m)
    (hs : ∀ s ∈ statements, Statement.Writable s) (conclusion : Statement) :
    (substitute conclusion m.bindings).Writable := by
  obtain ⟨_, hmatch, _⟩ := match?_eq_some h
  intro y hy
  obtain ⟨s, hmem, hys⟩ := mem_leaves_substitute_of_matchPremises hmatch hy
  exact hs s hmem y hys

/-- The result that is listed for a conclusion has a placeholder exactly if the conclusion has a variable that
    no premise has. -/
theorem hasPlaceholder_derived_iff (h : form.match? statements = some m)
    (hs : ∀ s ∈ statements, Statement.Writable s) {conclusion : Statement} {d : Draft} (hd : d ∈ m.derived)
    (htext : d.text = (substitute conclusion m.bindings).text) :
    d.hasPlaceholder = true ↔ ∃ x ∈ conclusion.leaves, ∀ p ∈ form.premises, x ∉ p.leaves := by
  obtain ⟨_, _, hderived⟩ := match?_eq_some h
  obtain ⟨conclusion', _, rfl⟩ := hderived d hd
  -- the result may be that of another conclusion with the same text
  rw [← Draft.placeholder_mem_text_iff (writable_substitute h hs conclusion'), htext,
    Draft.placeholder_mem_text_iff (writable_substitute h hs conclusion), hasPlaceholder_substitute_iff]
  simp only [get?_bindings_eq_none_iff h]

end ArgumentForm

/-! ## Both together -/

/-- What a match leaves open is what its form introduces. -/
structure FormMatch.MarksIntroduced (m : FormMatch) : Prop where
  /-- The variables bound are those of the premises, each once. -/
  bindings : m.bindings.keys.Perm (distinct (m.form.premises.flatMap Formula.leaves))
  /-- The text of each conclusion's result is listed once. -/
  listed : ∀ conclusion ∈ m.form.conclusions,
    (m.derived.map Formula.text).count (substitute conclusion m.bindings).text = 1
  /-- What is listed has a placeholder exactly if the conclusion has a variable that no premise has. -/
  marked : ∀ conclusion ∈ m.form.conclusions, ∀ d ∈ m.derived,
    d.text = (substitute conclusion m.bindings).text →
      (d.hasPlaceholder = true ↔ ∃ x ∈ conclusion.leaves, ∀ p ∈ m.form.premises, x ∉ p.leaves)

/-- **The forms that apply do not depend on the sequence in which statements were selected**, and in each match
    placeholders mark exactly the variables that its form introduces. -/
theorem searchForms_perm (c : Catalogue Statement) (medium : Medium) (e : Explanation)
    (hs : ∀ s ∈ statements, Statement.Writable s) (hperm : statements.Perm statements') :
    (c.searchForms medium statements e).1.map FormMatch.form =
        (c.searchForms medium statements' e).1.map FormMatch.form ∧
      ∀ m ∈ (c.searchForms medium statements e).1, m.MarksIntroduced := by
  constructor
  · have hcandidates : c.candidates statements = c.candidates statements' := by
      unfold Catalogue.candidates
      rw [hperm.length_eq]
    rw [c.map_form_searchForms, c.map_form_searchForms, hcandidates]
    refine List.filter_congr fun form _ => ?_
    exact isSome_matchPremises_perm hperm form.premises Assignment.empty
  · intro m hm
    obtain ⟨_, hmatch⟩ := Catalogue.exists_of_mem_searchForms hm
    refine ⟨ArgumentForm.keys_bindings_perm hmatch, ?_, ?_⟩
    · intro conclusion hc
      exact ArgumentForm.count_derived hmatch hc
    · intro conclusion _ d hd htext
      exact ArgumentForm.hasPlaceholder_derived_iff hmatch hs hd htext

/-- A form with two conclusions, one of which has a variable of its own, and two statements that are its premises
    the other way round. -/
theorem searchForms_perm_two :
    ∃ c, Catalogue.parse ⟨[⟨"Detachment", "Det", ["P > Q", "P"], ["Q v R", "Q"]⟩], []⟩ = .ok c ∧
      ∃ s t, Statement.parse "A" = .ok s ∧ Statement.parse "A > B" = .ok t ∧
        (∀ f ∈ [s, t], Statement.Writable f) ∧ [s, t].Perm [t, s] ∧
        (c.searchForms .plain [s, t] {}).1.map FormMatch.form =
          (c.searchForms .plain [t, s] {}).1.map FormMatch.form ∧
        ∃ m ∈ (c.searchForms .plain [s, t] {}).1, m.derived.map Formula.text = ["B v %", "B"] ∧
          m.MarksIntroduced := by
  let form : ArgumentForm Statement := ⟨"Detachment", "Det",
    [.binary .conditional (.atom ⟨"P"⟩) (.atom ⟨"Q"⟩), .atom ⟨"P"⟩],
    [.binary .disjunction (.atom ⟨"Q"⟩) (.atom ⟨"R"⟩), .atom ⟨"Q"⟩]⟩
  let s : Statement := .atom ⟨"A"⟩
  let t : Statement := .binary .conditional (.atom ⟨"A"⟩) (.atom ⟨"B"⟩)
  have hs : ∀ f ∈ [s, t], Statement.Writable f := by decide
  have hperm : [s, t].Perm [t, s] := .swap t s []
  obtain ⟨hforms, hmarks⟩ := searchForms_perm ⟨[form], []⟩ .plain {} hs hperm
  obtain ⟨m, hm, htexts⟩ : ∃ m ∈ (Catalogue.searchForms ⟨[form], []⟩ .plain [s, t] {}).1,
      m.derived.map Formula.text = ["B v %", "B"] :=
    ⟨_, List.mem_cons_self, rfl⟩
  exact ⟨⟨[form], []⟩, rfl, s, t, rfl, rfl, hs, hperm, hforms, m, hm, htexts, hmarks m hm⟩

end Sentential
