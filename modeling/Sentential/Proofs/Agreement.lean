import Sentential.Proofs.Arguments
import Sentential.Proofs.Validity

/-!
# `Sentential.Proofs.Agreement` — inference agrees with truth tables

There are two ways to know that a conclusion follows: a form infers it from statements that match its premises,
or the table of the argument has no counterexample. The first needs to know of its form only that it is valid,
which is a matter of its pattern variables; whoever goes that way then need not make the table, which would
show the same.

Validity is known through interpretations, and these assign some symbols only. It comes to the same as over all
valuations, because a valuation can be cut down to the symbols that matter (`entails_iff_implies`).

## Contents
* `Statement.Implies`, `entails_iff_implies` — entailment by interpretations
* `Statement.Unrefuted` — no interpretation and no table refutes a conclusion
* `searchForms_unrefuted` — what a search with argument forms infers
-/

namespace Sentential

namespace Statement

variable {premises : List Statement} {f : Statement}

/-- Every interpretation that assigns the statement and makes the premises true makes it true. -/
def Implies (premises : List Statement) (f : Statement) : Prop :=
  ∀ i : Interpretation, i.Assigns f → (∀ p ∈ premises, i.evaluate p = some true) → i.evaluate f = some true

/-- **Interpretations entail what valuations entail.** -/
theorem entails_iff_implies : Entails premises f ↔ Implies premises f := by
  constructor
  · intro h i hi htrue
    exact h.evaluate hi htrue
  · intro h v hv
    -- some interpretation gives all these statements the values of the valuation
    obtain ⟨i, hi⟩ := exists_interpretation v (f :: premises)
    have hf := hi f List.mem_cons_self
    have htrue := h i (Interpretation.assigns_of_evaluate hf) fun p hp => by
      rw [hi p (List.mem_cons_of_mem f hp), hv p hp]
    rw [hf] at htrue
    exact Option.some.inj htrue

/-- No interpretation of the premises and the conclusion refutes the argument, and no table does. -/
structure Unrefuted (premises : List Statement) (conclusion : Statement) : Prop where
  implies : Implies premises conclusion
  /-- Both views of the argument's table show that it is valid, if the limit allows for the symbols. -/
  valid : ∀ (limit : Limit) (sentences : List Sentence) (t : Sentence),
    sentences.map Sentence.statement = premises → t.statement = conclusion →
    (symbolsOf (sentences ++ [t])).length ≤ limit.enforced →
    ∃ views, jointTable limit true (sentences ++ [t]) = .ok views ∧
      views.detailed.validity.valid = true ∧ views.simple.validity.valid = true

/-- What is entailed is not refuted. -/
theorem Entails.unrefuted (h : Entails premises f) : Unrefuted premises f := by
  refine ⟨entails_iff_implies.mp h, ?_⟩
  rintro limit sentences t rfl rfl hlimit
  obtain ⟨views, hviews, hshow, hjudges⟩ := jointTable_verdict hlimit
  have hvalid : views.detailed.validity.valid = true := by
    refine hjudges.valid_iff.mpr fun i hi htrue => h.evaluate ?_ htrue
    exact Interpretation.assigns_iff.mpr fun s hs => hi s (mem_symbolsOf.mpr ⟨t, by simp, hs⟩)
  exact ⟨views, hviews, hvalid, (validity_of_show hshow).1 ▸ hvalid⟩

end Statement

/-! ## What a search infers -/

/-- The premises of the form imply each conclusion. -/
def ArgumentForm.Sound (form : ArgumentForm Statement) : Prop :=
  ∀ conclusion ∈ form.conclusions, Statement.Implies form.premises conclusion

theorem ArgumentForm.valid_iff_sound {form : ArgumentForm Statement} : form.Valid ↔ form.Sound :=
  forall₂_congr fun _ _ => Statement.entails_iff_implies

/-- **What a sound form infers is not refuted**, whichever catalogue it is in, however many placeholders its
    result has and whatever they are filled with. The usual forms are sound, so nothing that they infer is
    refuted. -/
theorem searchForms_unrefuted (c : Catalogue Statement) (medium : Medium) (statements : List Statement)
    (e : Explanation) :
    (∀ form ∈ c.forms, form.Sound → ∀ m ∈ (c.searchForms medium statements e).1, m.form = form →
      ∀ d ∈ m.derived, ∀ filling, Statement.Unrefuted statements (d.fill filling)) ∧
    (∀ form ∈ Catalogue.standard.forms, form.Sound) ∧
    ∀ m ∈ (Catalogue.standard.searchForms medium statements e).1, ∀ d ∈ m.derived, ∀ filling,
      Statement.Unrefuted statements (d.fill filling) := by
  refine ⟨?_, fun form hform => ?_, ?_⟩
  · rintro form - hsound m hm rfl d hd filling
    obtain ⟨_, hmatch⟩ := Catalogue.exists_of_mem_searchForms hm
    exact ((ArgumentForm.valid_iff_sound.mpr hsound).entails hmatch hd filling).unrefuted
  · exact ArgumentForm.valid_iff_sound.mp (Catalogue.standardForms_valid form hform)
  · intro m hm d hd filling
    obtain ⟨hform, hmatch⟩ := Catalogue.exists_of_mem_searchForms hm
    exact ((Catalogue.standardForms_valid m.form hform).entails hmatch hd filling).unrefuted

/-- A form of another catalogue, whose variables occur in the statement the other way round. -/
theorem searchForms_unrefuted_weakening :
    ∃ c, Catalogue.parse ⟨[⟨"Weakening", "Weak", ["P > Q"], ["P > (R v Q)"]⟩], []⟩ = .ok c ∧
      (∀ form ∈ c.forms, form.Sound) ∧
      ∃ m ∈ (c.searchForms .plain [.binary .conditional (.atom ⟨"Q"⟩) (.atom ⟨"P"⟩)] {}).1,
        ∃ d ∈ m.derived, d.text = "Q > (% v P)" ∧ ∀ filling,
          Statement.Unrefuted [.binary .conditional (.atom ⟨"Q"⟩) (.atom ⟨"P"⟩)] (d.fill filling) := by
  let form : ArgumentForm Statement := ⟨"Weakening", "Weak", [.binary .conditional (.atom ⟨"P"⟩) (.atom ⟨"Q"⟩)],
    [.binary .conditional (.atom ⟨"P"⟩) (.binary .disjunction (.atom ⟨"R"⟩) (.atom ⟨"Q"⟩))]⟩
  have hsound : form.Sound := by
    refine ArgumentForm.valid_iff_sound.mp (List.forall_mem_singleton.mpr fun v hv => ?_)
    have hpremise : (!v ⟨"P"⟩ || v ⟨"Q"⟩) = true := hv _ List.mem_cons_self
    show (!v ⟨"P"⟩ || (v ⟨"R"⟩ || v ⟨"Q"⟩)) = true
    rw [Bool.or_left_comm, hpremise, Bool.or_true]
  obtain ⟨m, hm, hform, d, hd, htext⟩ : ∃ m ∈ (Catalogue.searchForms ⟨[form], []⟩ .plain
      [.binary .conditional (.atom ⟨"Q"⟩) (.atom ⟨"P"⟩)] {}).1,
      m.form = form ∧ ∃ d ∈ m.derived, d.text = "Q > (% v P)" :=
    ⟨_, List.mem_cons_self, rfl, _, List.mem_cons_self, rfl⟩
  exact ⟨⟨[form], []⟩, rfl, List.forall_mem_singleton.mpr hsound, m, hm, d, hd, htext,
    (searchForms_unrefuted _ .plain _ {}).1 form List.mem_cons_self hsound m hm hform d hd⟩

end Sentential
