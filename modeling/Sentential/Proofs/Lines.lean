import Sentential.Proof
import Sentential.Proofs.Drafts
import Sentential.Proofs.Results

/-!
# `Sentential.Proofs.Lines` — what a request to a proof does

Each request to a proof is refused or succeeds, and each lemma of this file says exactly when it succeeds and
with which result. Lines are premises before steps, so that a line number leads to a premise or, less the
number of premises, to a step; a premise has no placeholder, and so only a step is ever filled.

## Contents
* `getElem?_lines_of_lt`, `getElem?_lines_of_le`, `mem_lines_iff` — lines as premises and steps
* `statement_eq_ok_iff`, `statements_eq_ok_iff` — reading lines
* `push_eq_ok_iff`, `remove_eq_ok_iff`, `fill_eq_ok_iff` — changes
* `argumentForms_eq_ok_iff`, `replacementRules_eq_ok_iff` — searches
* `parse_ok_iff`, `isComplete_iff` — the beginning and the end
-/

namespace Sentential

namespace Proof

variable {p p' : Proof} {i : Nat} {l : Line} {s : Statement}

/-! ## Lines -/

theorem length_lines (p : Proof) : p.lines.length = p.size := by
  simp [lines, size]

/-- The first lines are the premises. -/
theorem getElem?_lines_of_lt (h : i < p.premises.length) :
    p.lines[i]? = p.premises[i]?.map fun s => ⟨Draft.ofStatement s, .premise⟩ := by
  unfold lines
  rw [List.getElem?_append_left (by simpa using h), List.getElem?_map]

/-- The others are the steps. -/
theorem getElem?_lines_of_le (h : p.premises.length ≤ i) :
    p.lines[i]? = p.steps[i - p.premises.length]?.map Step.line := by
  unfold lines
  rw [List.getElem?_append_right (by simpa using h), List.getElem?_map, List.length_map]

theorem mem_lines_iff :
    l ∈ p.lines ↔ (∃ s ∈ p.premises, l = ⟨Draft.ofStatement s, .premise⟩) ∨ ∃ t ∈ p.steps, l = t.line := by
  unfold lines
  simp only [List.mem_append, List.mem_map, eq_comm]

/-! ## Reading -/

theorem line_eq_ok_iff : p.line i = .ok l ↔ p.lines[i]? = some l := by
  unfold line
  cases p.lines[i]? <;> simp

/-- A statement is read from a line without placeholder. -/
theorem statement_eq_ok_iff :
    p.statement i = .ok s ↔ ∃ l, p.lines[i]? = some l ∧ l.statement = Draft.ofStatement s := by
  unfold statement line
  cases p.lines[i]? with
  | none => simp
  | some l =>
    simp only [Option.some.injEq, exists_eq_left', ← Draft.statement?_eq_some_iff]
    cases l.statement.statement? <;> simp

/-- Several statements are read from as many lines. -/
theorem statements_eq_ok_iff {selected : List Nat} {statements : List Statement} :
    p.statements selected = .ok statements ↔
      List.Forall₂ (fun i s => p.statement i = .ok s) selected statements := by
  induction selected generalizing statements with
  | nil =>
    unfold Proof.statements
    constructor
    · intro h
      obtain rfl := Except.ok.inj h
      exact .nil
    · intro h
      cases h
      rfl
  | cons i rest ih =>
    unfold Proof.statements
    constructor
    · intro h
      split at h
      · exact absurd h (by simp)
      · rename_i s hs
        obtain ⟨others, hothers, rfl⟩ := map_eq_ok_iff.mp h
        exact .cons hs (ih.mp hothers)
    · intro h
      cases h with
      | cons hs hothers => simp only [hs, map_eq_ok_iff, ih.mpr hothers, Except.ok.injEq, exists_eq_left']

/-! ## Changes -/

/-- A step is added if it cites only lines that are there. -/
theorem push_eq_ok_iff {t : Step} :
    p.push t = .ok p' ↔ (∀ source ∈ t.sources, source < p.size) ∧ p' = { p with steps := p.steps ++ [t] } := by
  unfold push
  constructor
  · intro h
    split at h
    · exact absurd h (by simp)
    · rename_i hnone
      refine ⟨fun source hsource => ?_, (Except.ok.inj h).symm⟩
      simpa using List.find?_eq_none.mp hnone source hsource
  · rintro ⟨hsources, rfl⟩
    have hnone : t.sources.find? (p.size ≤ ·) = none := by
      rw [List.find?_eq_none]
      intro source hsource
      simpa using hsources source hsource
    rw [hnone]

/-- A line is taken out if it is no premise and is not cited. -/
theorem remove_eq_ok_iff :
    p.remove i = .ok (l, p') ↔ p.lines[i]? = some l ∧ p.premises.length ≤ i ∧ p.citing? i = none ∧
      p' = { p with steps := (p.steps.eraseIdx (i - p.premises.length)).map (renumberStep i) } := by
  unfold remove line
  cases hl : p.lines[i]? with
  | none => simp
  | some l' =>
    by_cases hi : i < p.premises.length
    · simp [hi, Nat.not_le.mpr hi]
    · cases p.citing? i with
      | some citing => simp [hi]
      | none =>
        simp only [hi, if_false, Except.ok.injEq, Prod.mk.injEq, Option.some.injEq, Nat.not_lt.mp hi,
          true_and]
        exact ⟨fun ⟨h, h'⟩ => ⟨h, h'.symm⟩, fun ⟨h, h'⟩ => ⟨h, h'.symm⟩⟩

/-- A line is filled if it is a step with a placeholder. -/
theorem fill_eq_ok_iff {filling : Statement} :
    p.fill i filling = .ok p' ↔ ∃ t, p.premises.length ≤ i ∧ p.steps[i - p.premises.length]? = some t ∧
      t.statement.hasPlaceholder = true ∧
      p' = { p with
        steps := p.steps.set (i - p.premises.length)
          { t with statement := Draft.ofStatement (t.statement.fill filling) } } := by
  unfold fill line
  by_cases hi : i < p.premises.length
  · -- a premise has no placeholder
    have hfinished := Draft.hasPlaceholder_ofStatement p.premises[i]
    rw [getElem?_lines_of_lt hi, List.getElem?_eq_getElem hi]
    simp [hfinished, Nat.not_le.mpr hi]
  · -- a step is filled in its own place among the steps
    have hi := Nat.not_lt.mp hi
    rw [getElem?_lines_of_le hi]
    cases ht : p.steps[i - p.premises.length]? with
    | none => simp
    | some t =>
      simp only [Option.map_some, Step.line, List.modify_eq_set_getElem?, ht, Option.map_eq_map, hi,
        Option.getD_some, Option.some.injEq, exists_eq_left', true_and]
      cases t.statement.hasPlaceholder
      · simp
      · simp [eq_comm]

/-! ## Searches -/

theorem argumentForms_eq_ok_iff {medium : Medium} {selected : List Nat} {e : Explanation}
    {found : List FormMatch × Explanation} :
    p.argumentForms medium selected e = .ok found ↔ ∃ statements,
      p.statements selected = .ok statements ∧ Catalogue.standard.searchForms medium statements e = found := by
  unfold argumentForms
  cases p.statements selected <;> simp

theorem replacementRules_eq_ok_iff {medium : Medium} {path : Path} {e : Explanation}
    {found : List RuleMatch × Explanation} :
    p.replacementRules medium i path e = .ok found ↔ ∃ s,
      p.statement i = .ok s ∧ Catalogue.standard.searchRules medium s path e = .ok found := by
  unfold replacementRules
  cases p.statement i with
  | error refusal => simp
  | ok s => cases h : Catalogue.standard.searchRules medium s path e <;> simp [h]

/-! ## The beginning and the end -/

/-- A proof begins with premises and a conclusion that were read, and without steps. -/
theorem parse_ok_iff {premises : List String} {conclusion : String} :
    Proof.parse premises conclusion = .ok p ↔
      List.Forall₂ (fun text s => Statement.parse text = .ok s) premises p.premises ∧ p.steps = [] ∧
        Statement.parse conclusion = .ok p.conclusion := by
  obtain ⟨read, steps, goal⟩ := p
  simp only [← mapM_eq_ok_iff, Proof.parse]
  cases premises.mapM Statement.parse with
  | error fault => simp
  | ok premises =>
    cases Statement.parse conclusion with
    | error fault => simp
    | ok conclusion => simp [eq_comm]

/-- A proof is complete if its last line is the conclusion. -/
theorem isComplete_iff :
    p.isComplete = true ↔ ∃ l, p.lines.getLast? = some l ∧ l.statement = Draft.ofStatement p.conclusion := by
  unfold isComplete
  cases p.lines.getLast? with
  | none => simp
  | some l => simp [Draft.statement?_eq_some_iff]

end Proof

end Sentential
