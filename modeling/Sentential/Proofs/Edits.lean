import Mathlib.Data.List.InsertIdx
import Sentential.Proofs.Lines

/-!
# `Sentential.Proofs.Edits` — a change of a proof as a change of its lines

A proof keeps premises and steps apart, but whoever reads it sees one list of lines, and to them each change is
small: a line is added at the end, one line is filled, or one is taken out and the citations that remain are
renumbered. A line that has a statement keeps it through every change that it survives, though it may get
another number.

## Contents
* `Line.renumber` — a line once another is gone
* `lines_push`, `lines_fill`, `lines_remove` — the lines after a change
* `getElem?_lines_of_push`, `getElem?_lines_of_fill` — where a line after a change comes from
* `statement_push`, `statement_fill`, `statement_remove` — what was read before a change is read after it
* `not_mem_sources_of_remove`, `exists_rule_of_remove` — no line cites the one that is removed, and what the others
  cited is left
-/

namespace Sentential

/-! ## Renumbering -/

/-- A justification once line `removed` is gone. -/
def Justification.renumber (removed : Nat) : Justification → Justification
  | premise => premise
  | rule abbreviation sources => rule abbreviation (sources.map (Proof.renumber removed))

/-- A line once line `removed` is gone. -/
def Line.renumber (removed : Nat) (l : Line) : Line :=
  { l with justification := l.justification.renumber removed }

namespace Proof

/-- Lines keep their sequence while one of them is taken out. -/
theorem renumber_lt_renumber {removed j k : Nat} (h : j < k) (hj : j ≠ removed) :
    renumber removed j < renumber removed k := by
  unfold renumber
  split <;> split <;> omega

/-- A line is found again under its new number. -/
theorem getElem?_eraseIdx_renumber {α : Type} (lines : List α) {removed j : Nat} (hj : j ≠ removed) :
    (lines.eraseIdx removed)[renumber removed j]? = lines[j]? := by
  unfold renumber
  rw [List.getElem?_eraseIdx]
  by_cases h : removed < j
  · have hback : j - 1 + 1 = j := by omega
    rw [if_pos h, if_neg (by omega), hback]
  · rw [if_neg h, if_pos (by omega)]

/-- Every line that is left had a number before, and another line was taken out. -/
theorem exists_of_getElem?_eraseIdx {α : Type} {lines : List α} {removed k : Nat} {l : α}
    (h : (lines.eraseIdx removed)[k]? = some l) :
    ∃ j, j ≠ removed ∧ renumber removed j = k ∧ lines[j]? = some l := by
  rw [List.getElem?_eraseIdx] at h
  by_cases hk : k < removed
  · rw [if_pos hk] at h
    exact ⟨k, by omega, if_neg (by omega), h⟩
  · rw [if_neg hk] at h
    exact ⟨k + 1, by omega, if_pos (by omega), h⟩

/-! ## The lines after a change -/

variable {p p' : Proof} {i j : Nat} {l : Line} {s : Statement}

/-- A step is added below all lines. -/
theorem lines_push {t : Step} (h : p.push t = .ok p') : p'.lines = p.lines ++ [t.line] := by
  obtain ⟨_, rfl⟩ := push_eq_ok_iff.mp h
  rw [lines, lines, List.map_append, List.append_assoc]
  rfl

theorem size_push {t : Step} (h : p.push t = .ok p') : p'.size = p.size + 1 := by
  rw [← length_lines, lines_push h, List.length_append, length_lines, List.length_singleton]

/-- After a step was added, a line is an old one or the step below all of them. -/
theorem getElem?_lines_of_push {t : Step} (h : p.push t = .ok p') (hl : p'.lines[j]? = some l) :
    p.lines[j]? = some l ∨ (j = p.size ∧ l = t.line) := by
  rw [lines_push h] at hl
  by_cases hj : j < p.lines.length
  · rw [List.getElem?_append_left hj] at hl
    exact .inl hl
  · rw [List.getElem?_append_right (Nat.not_lt.mp hj), List.getElem?_singleton] at hl
    split at hl
    · rw [← length_lines]
      exact .inr ⟨by omega, (Option.some.inj hl).symm⟩
    · exact absurd hl (by simp)

/-- One line is filled in its place. -/
theorem lines_fill {filling : Statement} (h : p.fill i filling = .ok p') :
    ∃ l, p.lines[i]? = some l ∧ l.statement.hasPlaceholder = true ∧
      p'.lines = p.lines.set i { l with statement := Draft.ofStatement (l.statement.fill filling) } := by
  obtain ⟨t, hi, ht, hplaceholder, rfl⟩ := fill_eq_ok_iff.mp h
  refine ⟨t.line, ?_, hplaceholder, ?_⟩
  · rw [getElem?_lines_of_le hi, ht]
    rfl
  · rw [lines, lines, List.set_append_right _ _ (by rwa [List.length_map]), List.length_map, List.map_set]
    rfl

/-- After a line was filled, a line is an old one, or the one filled, with the justification that it had. -/
theorem getElem?_lines_of_fill {filling : Statement} (h : p.fill i filling = .ok p') (hl : p'.lines[j]? = some l) :
    ∃ old, p.lines[j]? = some old ∧ l.justification = old.justification ∧
      (l = old ∨ (old.statement.hasPlaceholder = true ∧
        l.statement = Draft.ofStatement (old.statement.fill filling))) := by
  obtain ⟨unfilled, hunfilled, hplaceholder, hlines⟩ := lines_fill h
  rw [hlines] at hl
  by_cases hj : i = j
  · subst hj
    rw [List.getElem?_set_self (List.getElem?_eq_some_iff.mp hunfilled).1] at hl
    obtain rfl := Option.some.inj hl
    exact ⟨unfilled, hunfilled, rfl, .inr ⟨hplaceholder, rfl⟩⟩
  · rw [List.getElem?_set_ne hj] at hl
    exact ⟨l, hl, rfl, .inl rfl⟩

theorem size_fill {filling : Statement} (h : p.fill i filling = .ok p') : p'.size = p.size := by
  obtain ⟨_, _, _, hlines⟩ := lines_fill h
  rw [← length_lines, hlines, List.length_set, length_lines]

/-- One line is taken out, and the others are renumbered. -/
theorem lines_remove (h : p.remove i = .ok (l, p')) : p'.lines = (p.lines.eraseIdx i).map (Line.renumber i) := by
  obtain ⟨_, hi, _, rfl⟩ := remove_eq_ok_iff.mp h
  rw [lines, lines, List.eraseIdx_append_of_length_le (by rwa [List.length_map]), List.length_map,
    List.map_append, List.map_map, List.eraseIdx_map, List.map_map, List.map_map]
  rfl

/-- No line cites the one that is removed. -/
theorem not_mem_sources_of_remove (h : p.remove i = .ok (l, p')) {u : Line} (hu : u ∈ p.lines)
    {rule : String} {sources : List Nat} (hrule : u.justification = .rule rule sources) : i ∉ sources := by
  obtain ⟨_, _, hciting, _⟩ := remove_eq_ok_iff.mp h
  rw [citing?, Option.map_eq_none_iff, List.findIdx?_eq_none_iff] at hciting
  rcases mem_lines_iff.mp hu with ⟨_, _, rfl⟩ | ⟨t, ht, rfl⟩
  · exact absurd hrule (by simp)
  · obtain ⟨_, rfl⟩ := Justification.rule.inj hrule
    exact fun hmem => absurd (hciting t ht) (by simpa using hmem)

/-- A line that is inferred after a removal was inferred before it, by the same rule, from lines that are left. -/
theorem exists_rule_of_remove (h : p.remove i = .ok (l, p')) {k' : Nat} {l' : Line} {abbreviation : String}
    {sources' : List Nat} (hl' : p'.lines[k']? = some l') (hrule' : l'.justification = .rule abbreviation sources') :
    ∃ k old sources, k ≠ i ∧ renumber i k = k' ∧ p.lines[k]? = some old ∧ l' = old.renumber i ∧
      old.justification = .rule abbreviation sources ∧ sources' = sources.map (renumber i) ∧
      ∀ c ∈ sources, c ≠ i := by
  rw [lines_remove h, List.getElem?_map, Option.map_eq_some_iff] at hl'
  obtain ⟨old, hl, rfl⟩ := hl'
  obtain ⟨k, hk, hk', hold⟩ := exists_of_getElem?_eraseIdx hl
  cases hrule : old.justification with
  | premise => exact absurd hrule' (by simp [Line.renumber, Justification.renumber, hrule])
  | rule abbreviation sources =>
    simp only [Line.renumber, hrule, Justification.renumber, Justification.rule.injEq] at hrule'
    obtain ⟨rfl, rfl⟩ := hrule'
    refine ⟨k, old, sources, hk, hk', hold, rfl, hrule, rfl, ?_⟩
    rintro c hc rfl
    exact not_mem_sources_of_remove h (List.mem_of_getElem? hold) hrule hc

/-- A proof begins with premises only. -/
theorem justification_of_parse {premises : List String} {conclusion : String}
    (h : Proof.parse premises conclusion = .ok p) (hl : l ∈ p.lines) : l.justification = .premise := by
  obtain ⟨_, hsteps, _⟩ := parse_ok_iff.mp h
  rcases mem_lines_iff.mp hl with ⟨_, _, rfl⟩ | ⟨t, ht, _⟩
  · rfl
  · rw [hsteps] at ht
    exact absurd ht List.not_mem_nil

/-! ## What is read before and after -/

/-- A line with a statement is there. -/
theorem lt_size_of_statement (h : p.statement i = .ok s) : i < p.size := by
  obtain ⟨l, hl, _⟩ := statement_eq_ok_iff.mp h
  rw [← length_lines]
  exact (List.getElem?_eq_some_iff.mp hl).1

/-- A new step is added below the lines that have a statement. -/
theorem statement_push {t : Step} (h : p.push t = .ok p') (hs : p.statement j = .ok s) :
    p'.statement j = .ok s := by
  obtain ⟨l, hl, heq⟩ := statement_eq_ok_iff.mp hs
  refine statement_eq_ok_iff.mpr ⟨l, ?_, heq⟩
  rw [lines_push h, List.getElem?_append_left (by rw [length_lines]; exact lt_size_of_statement hs), hl]

/-- A line that is filled has no statement before, and no other line is changed. -/
theorem statement_fill {filling : Statement} (h : p.fill i filling = .ok p') (hs : p.statement j = .ok s) :
    p'.statement j = .ok s := by
  obtain ⟨unfilled, hunfilled, hplaceholder, hlines⟩ := lines_fill h
  obtain ⟨l, hl, heq⟩ := statement_eq_ok_iff.mp hs
  have hne : i ≠ j := by
    rintro rfl
    obtain rfl := Option.some.inj (hunfilled.symm.trans hl)
    rw [heq, Draft.hasPlaceholder_ofStatement] at hplaceholder
    exact absurd hplaceholder (by simp)
  refine statement_eq_ok_iff.mpr ⟨l, ?_, heq⟩
  rw [hlines, List.getElem?_set_ne hne, hl]

/-- A line that is not removed keeps its statement under its new number. -/
theorem statement_remove (h : p.remove i = .ok (l, p')) (hj : j ≠ i) (hs : p.statement j = .ok s) :
    p'.statement (renumber i j) = .ok s := by
  obtain ⟨u, hu, heq⟩ := statement_eq_ok_iff.mp hs
  refine statement_eq_ok_iff.mpr ⟨u.renumber i, ?_, heq⟩
  rw [lines_remove h, List.getElem?_map, getElem?_eraseIdx_renumber p.lines hj, hu, Option.map_some]

/-- Lines from which statements are read are there. -/
theorem lt_size_of_statements {selected : List Nat} {statements : List Statement}
    (h : p.statements selected = .ok statements) (hj : j ∈ selected) : j < p.size := by
  obtain ⟨_, _, hs⟩ := exists_of_mem_left (statements_eq_ok_iff.mp h) hj
  exact lt_size_of_statement hs

/-- Where every line cited keeps its statement under a new number, the same statements are read. -/
theorem statements_map {number : Nat → Nat} {selected : List Nat} {statements : List Statement}
    (hnumber : ∀ j ∈ selected, ∀ s, p.statement j = .ok s → p'.statement (number j) = .ok s)
    (h : p.statements selected = .ok statements) : p'.statements (selected.map number) = .ok statements := by
  rw [statements_eq_ok_iff] at h ⊢
  induction h with
  | nil => exact .nil
  | cons hs _ ih =>
    refine .cons (hnumber _ List.mem_cons_self _ hs) (ih fun j hj => hnumber j (List.mem_cons_of_mem _ hj))

end Proof

end Sentential
