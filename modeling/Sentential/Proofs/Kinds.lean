import Sentential.Proofs.Comparisons
import Sentential.Proofs.Tables

/-!
# `Sentential.Proofs.Kinds` — the kind of a sentence is about all interpretations

The kind of a sentence is read off one column of its table. The column lists a value for each row, and as every
interpretation of the symbols agrees with that of some row, what all rows show is what all interpretations show
(`column_all_iff`). An interpretation may also give values to other symbols, which change nothing. Some
interpretation is always there, so that no sentence is both a tautology and a contradiction, and what is neither
has both values (`differ_iff`).

## Contents
* `Statement.Always`, `column_all_iff` — one value on all rows is one value under all interpretations
* `Always.unique`, `differ_iff` — a statement has one value only or two
* `Kind.Classifies`, `classifies_of_column` — what a kind says
* `table_classifies` — the kind on either view of a table
-/

namespace Sentential

namespace Statement

variable {f : Statement}

/-- The statement has the value under every interpretation of its symbols. -/
def Always (value : Bool) (f : Statement) : Prop :=
  ∀ i : Interpretation, i.Assigns f → i.evaluate f = some value

/-- Some interpretation gives values to the symbols of the statement. -/
theorem exists_assigns (f : Statement) : ∃ i : Interpretation, i.Assigns f := exists_assignsAll (nodup_distinct _)

/-- **A value that a statement has on all rows over its symbols is one that it always has.** -/
theorem column_all_iff (f : Statement) (value : Bool) :
    (column (constantColumns f.symbols) (rowTotal f.symbols.length) f).all (· == value) = true ↔
      f.Always value := by
  have hover : Over f.symbols [f] := by
    intro g hg s hs
    obtain rfl := List.mem_singleton.mp hg
    exact mem_distinct.mpr hs
  have hrows : (column (constantColumns f.symbols) (rowTotal f.symbols.length) f).all (· == value) =
      (rowValues f.symbols [f]).all fun values => values.all (· == value) := by
    rw [← Array.all_toList, column, Array.toList_map, Array.toList_range, rowValues, List.all_map, List.all_map]
    refine congrArg _ (funext fun row => ?_)
    exact (Bool.and_true _).symm
  have hnodup : f.symbols.Nodup := nodup_distinct _
  rw [hrows, all_rows_iff hnodup hover]
  refine forall₂_congr fun i hi => ?_
  rw [Interpretation.evaluate_of_assigns hi, Option.some.injEq, List.map_singleton, List.all_cons, List.all_nil,
    Bool.and_true, beq_iff_eq]

/-- No statement always has both values. -/
theorem Always.unique {value value' : Bool} (h : f.Always value) (h' : f.Always value') : value = value' := by
  obtain ⟨i, hi⟩ := f.exists_assigns
  exact Option.some.inj ((h i hi).symm.trans (h' i hi))

/-- A statement that does not always have a value has the other one somewhere. -/
theorem exists_of_not_always {value : Bool} (h : ¬f.Always value) :
    ∃ i : Interpretation, i.Assigns f ∧ i.evaluate f = some (!value) := by
  simp only [Always, not_forall, exists_prop] at h
  obtain ⟨i, hi, hne⟩ := h
  refine ⟨i, hi, ?_⟩
  rw [Interpretation.evaluate_of_assigns hi] at hne ⊢
  exact congrArg some (Bool.eq_not_of_ne fun heq => hne (congrArg some heq))

/-- Two interpretations tell a statement apart exactly if it does not always have one value. -/
theorem differ_iff :
    (∃ i j : Interpretation, i.Assigns f ∧ j.Assigns f ∧ i.evaluate f ≠ j.evaluate f) ↔
      ¬f.Always true ∧ ¬f.Always false := by
  constructor
  · rintro ⟨i, j, hi, hj, hne⟩
    exact ⟨fun h => hne ((h i hi).trans (h j hj).symm), fun h => hne ((h i hi).trans (h j hj).symm)⟩
  · rintro ⟨htrue, hfalse⟩
    obtain ⟨i, hi, hvalue⟩ := exists_of_not_always htrue
    obtain ⟨j, hj, hvalue'⟩ := exists_of_not_always hfalse
    exact ⟨i, j, hi, hj, by rw [hvalue, hvalue']; decide⟩

end Statement

/-! ## What a kind says -/

/-- The kind says which values the statement has under the interpretations of its symbols. -/
structure Kind.Classifies (k : Kind) (f : Statement) : Prop where
  tautology_iff : k = .tautology ↔ ∀ i : Interpretation, i.Assigns f → i.evaluate f = some true
  contradiction_iff : k = .contradiction ↔ ∀ i : Interpretation, i.Assigns f → i.evaluate f = some false
  contingency_iff : k = .contingency ↔
    ∃ i j : Interpretation, i.Assigns f ∧ j.Assigns f ∧ i.evaluate f ≠ j.evaluate f

/-- **The kind of the column of a statement classifies the statement.** -/
theorem Kind.classifies_of_column (f : Statement) :
    (ofValues (f.column (constantColumns f.symbols) (rowTotal f.symbols.length))).Classifies f := by
  have htrue := f.column_all_iff true
  have hfalse := f.column_all_iff false
  have hdiffer := Statement.differ_iff (f := f)
  unfold Kind.ofValues
  by_cases ht : f.Always true
  · rw [if_pos (htrue.mpr ht)]
    have hnot : ¬f.Always false := fun hf => absurd (ht.unique hf) (by decide)
    exact ⟨iff_of_true rfl ht, iff_of_false (by decide) hnot,
      iff_of_false (by decide) fun h => (hdiffer.mp h).1 ht⟩
  · rw [if_neg (mt htrue.mp ht)]
    by_cases hf : f.Always false
    · rw [if_pos (hfalse.mpr hf)]
      exact ⟨iff_of_false (by decide) ht, iff_of_true rfl hf,
        iff_of_false (by decide) fun h => (hdiffer.mp h).2 hf⟩
    · rw [if_neg (mt hfalse.mp hf)]
      exact ⟨iff_of_false (by decide) ht, iff_of_false (by decide) hf, iff_of_true rfl (hdiffer.mpr ⟨ht, hf⟩)⟩

/-- **Within the limit, either view of a table shows the kind of the sentence**, and it is about all
    interpretations of the sentence's symbols. -/
theorem table_classifies {limit : Limit} {t : Sentence} (hlimit : t.symbols.length ≤ limit.enforced) :
    ∃ views, t.table limit = .ok views ∧ views.detailed.kind = views.simple.kind ∧
      views.detailed.kind.Classifies t.statement := by
  obtain ⟨views, hviews, hdetailed, hsimple⟩ := table_shows hlimit
  have hkind : views.detailed.kind =
      Kind.ofValues (Statement.column (constantColumns t.symbols) (rowTotal t.symbols.length) t.statement) := by
    rw [Table.kind, hdetailed, List.headD_cons]
  refine ⟨views, hviews, ?_, ?_⟩
  · rw [Table.kind, Table.kind, hdetailed, hsimple]
  · rw [hkind]
    exact Kind.classifies_of_column t.statement

/-- A tautology of two symbols, within a limit that has no room for another. -/
theorem table_classifies_tautology :
    ∃ t, Sentence.parse "(A > B) v (B > A)" = .ok t ∧ t.symbols.length ≤ Limit.enforced ⟨2⟩ ∧
      ∃ views, t.table ⟨2⟩ = .ok views ∧ views.detailed.kind = views.simple.kind ∧
        views.detailed.kind.Classifies t.statement ∧ views.simple.kind = .tautology := by
  obtain ⟨t, hread, hlimit, hshown⟩ : ∃ t, Sentence.parse "(A > B) v (B > A)" = .ok t ∧
      t.symbols.length ≤ Limit.enforced ⟨2⟩ ∧ (t.table ⟨2⟩).map (·.simple.kind) = .ok .tautology :=
    ⟨.binary .disjunction "v" (.group '(' (.binary .conditional ">" (.symbol ⟨"A"⟩) (.symbol ⟨"B"⟩)) ')')
      (.group '(' (.binary .conditional ">" (.symbol ⟨"B"⟩) (.symbol ⟨"A"⟩)) ')'),
      by decide +kernel, by decide, by decide +kernel⟩
  obtain ⟨views, hviews, hsame, hkind⟩ := table_classifies hlimit
  rw [hviews] at hshown
  exact ⟨t, hread, hlimit, views, hviews, hsame, hkind, Except.ok.inj hshown⟩

end Sentential
