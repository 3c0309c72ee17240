import Mathlib.Data.List.Permutation
import Sentential.Proofs.Joining
import Sentential.Sentence.Parser

/-!
# `Sentential.Proofs.Comparisons` — a comparison is about all interpretations

A comparison of sentences is made on the rows of their joint table. Each row is an interpretation of the symbols
and each interpretation is that of a row, so that what is true of the values on all rows is true of the values
under all interpretations (`all_rows_iff`). A comparison therefore says how the statements are related in
meaning. Nothing in that depends on their sequence: another sequence of the sentences makes another table, with
other symbols in front and other rows, and the same comparison (`Relates.eq_of_perm`).

## Contents
* `Interpretation.AssignsAll` — the interpretations of symbols
* `Statement.Agree`, `Statement.Opposed`, `Statement.Consistent` — how statements are related
* `allEqual_iff`, `areOpposite_iff`, `all_rows_iff` — what the values on all rows say of the statements
* `Comparison.Relates`, `Table.comparison_relates` — what a comparison says
* `Relates.eq_of_perm`, `jointTable_compares` — the comparison of sentences in any sequence
-/

namespace Sentential

/-- The interpretation gives a value to each of the symbols. -/
def Interpretation.AssignsAll (i : Interpretation) (symbols : List Symbol) : Prop :=
  ∀ s ∈ symbols, (i.get? s).isSome = true

/-! ## How statements are related -/

namespace Statement

variable {symbols : List Symbol} {statements : List Statement}

/-- Under every interpretation of the symbols the statements have one value. -/
def Agree (symbols : List Symbol) (statements : List Statement) : Prop :=
  ∀ i : Interpretation, i.AssignsAll symbols → ∃ value, ∀ f ∈ statements, i.evaluate f = some value

/-- There are two statements, and under every interpretation of the symbols they have opposite values. -/
def Opposed (symbols : List Symbol) (statements : List Statement) : Prop :=
  ∃ f g, statements = [f, g] ∧ ∀ i : Interpretation, i.AssignsAll symbols →
    ∃ value, i.evaluate f = some value ∧ i.evaluate g = some (!value)

/-- Some interpretation of the symbols makes every statement true. -/
def Consistent (symbols : List Symbol) (statements : List Statement) : Prop :=
  ∃ i : Interpretation, i.AssignsAll symbols ∧ ∀ f ∈ statements, i.evaluate f = some true

/-- The statements have no symbols but these. -/
def Over (symbols : List Symbol) (statements : List Statement) : Prop :=
  ∀ f ∈ statements, ∀ s ∈ f.leaves, s ∈ symbols

/-- Statements over the symbols have their values under the valuation of an interpretation. -/
theorem Over.evaluate (h : Over symbols statements) {i : Interpretation} (hi : i.AssignsAll symbols) :
    ∀ f ∈ statements, i.evaluate f = some (f.eval i.valuation) := by
  intro f hf
  exact Interpretation.evaluate_of_assigns (Interpretation.assigns_iff.mpr fun s hs => hi s (h f hf s hs))

end Statement

/-! ## Values on all rows -/

theorem allEqual_iff {values : List Bool} : allEqual values = true ↔ ∃ value, ∀ v ∈ values, v = value := by
  cases values with
  | nil => exact ⟨fun _ => ⟨true, by simp⟩, fun _ => rfl⟩
  | cons first rest =>
    rw [allEqual, List.all_eq_true]
    constructor
    · intro h
      refine ⟨first, fun v hv => ?_⟩
      rcases List.mem_cons.mp hv with rfl | hv
      · rfl
      · exact beq_iff_eq.mp (h v hv)
    · rintro ⟨value, h⟩ v hv
      rw [h v (List.mem_cons_of_mem first hv), h first List.mem_cons_self]
      exact beq_self_eq_true value

theorem areOpposite_iff {values : List Bool} :
    areOpposite values = true ↔ ∃ value, values = [value, !value] := by
  match values with
  | [] => simp [areOpposite]
  | [_] => simp [areOpposite]
  | [p, q] => cases p <;> cases q <;> simp [areOpposite]
  | _ :: _ :: _ :: _ => simp [areOpposite]

section

variable {symbols : List Symbol} {statements : List Statement}

/-- The values of statements on the rows over symbols. -/
def rowValues (symbols : List Symbol) (statements : List Statement) : List (List Bool) :=
  (List.range (rowTotal symbols.length)).map fun row =>
    statements.map (·.eval (rowValuation (constantColumns symbols) row))

/-- Some row over the symbols is there, and with it an interpretation. -/
theorem exists_assignsAll (h : symbols.Nodup) : ∃ i : Interpretation, i.AssignsAll symbols := by
  obtain ⟨row, _, hget⟩ := exists_row h fun _ => true
  exact ⟨_, fun s hs => Option.isSome_iff_exists.mpr ⟨_, hget s hs⟩⟩

/-- **What is true of the values on all rows is true of the values under all interpretations.** -/
theorem all_rows_iff (h : symbols.Nodup) (hover : Statement.Over symbols statements)
    {check : List Bool → Bool} :
    (rowValues symbols statements).all check = true ↔
      ∀ i : Interpretation, i.AssignsAll symbols → check (statements.map (·.eval i.valuation)) = true := by
  simp only [rowValues, List.all_map, List.all_eq_true, List.mem_range, Function.comp_apply]
  constructor
  · intro hrows i _
    obtain ⟨row, hrow, heval⟩ := exists_row_eval h i.valuation
    rw [← List.map_congr_left fun f hf => heval f (hover f hf)]
    exact hrows row hrow
  · intro hall row hrow
    have hassigned : (Interpretation.forRow symbols row).AssignsAll symbols := by
      intro s hs
      rw [rowValuation_eq h hs hrow]
      rfl
    have hvalues : statements.map (·.eval (Interpretation.forRow symbols row).valuation)
        = statements.map (·.eval (rowValuation (constantColumns symbols) row)) := by
      refine List.map_congr_left fun f hf => Formula.eval_congr fun s hs => ?_
      rw [Interpretation.valuation, rowValuation_eq h (hover f hf s hs) hrow, Option.getD_some]
    rw [← hvalues]
    exact hall _ hassigned

/-- The values on each row are equal exactly if the statements agree. -/
theorem all_allEqual_iff (h : symbols.Nodup) (hover : Statement.Over symbols statements) :
    (rowValues symbols statements).all allEqual = true ↔ Statement.Agree symbols statements := by
  rw [all_rows_iff h hover]
  refine forall₂_congr fun i hi => ?_
  rw [allEqual_iff]
  refine exists_congr fun value => ?_
  rw [List.forall_mem_map]
  refine forall₂_congr fun f hf => ?_
  rw [hover.evaluate hi f hf, Option.some.injEq]

/-- The values on each row are opposite exactly if the statements are opposed. -/
theorem all_areOpposite_iff (h : symbols.Nodup) (hover : Statement.Over symbols statements) :
    (rowValues symbols statements).all areOpposite = true ↔ Statement.Opposed symbols statements := by
  simp only [all_rows_iff h hover, areOpposite_iff]
  constructor
  · intro hall
    -- the values under one interpretation show that there are two statements
    obtain ⟨i, hi⟩ := exists_assignsAll h
    obtain ⟨value, hvalues⟩ := hall i hi
    obtain ⟨f, rest, rfl, _, hrest⟩ := List.map_eq_cons_iff.mp hvalues
    obtain ⟨g, rfl, _⟩ := List.map_eq_singleton_iff.mp hrest
    refine ⟨f, g, rfl, fun i hi => ?_⟩
    obtain ⟨value, hvalues⟩ := hall i hi
    obtain ⟨hf, hg⟩ : f.eval i.valuation = value ∧ g.eval i.valuation = !value := by simpa using hvalues
    refine ⟨value, ?_, ?_⟩
    · rw [hover.evaluate hi f (by simp), hf]
    · rw [hover.evaluate hi g (by simp), hg]
  · rintro ⟨f, g, rfl, hopposed⟩ i hi
    obtain ⟨value, hf, hg⟩ := hopposed i hi
    refine ⟨value, ?_⟩
    rw [List.map_cons, List.map_singleton, Interpretation.eval_of_evaluate hf,
      Interpretation.eval_of_evaluate hg]

/-- On some row all values are true exactly if the statements are consistent. -/
theorem any_all_iff (h : symbols.Nodup) (hover : Statement.Over symbols statements) :
    (rowValues symbols statements).any (·.all (· == true)) = true ↔
      Statement.Consistent symbols statements := by
  rw [List.any_eq_not_all_not, Bool.not_eq_true', ← Bool.not_eq_true, all_rows_iff h hover]
  simp only [not_forall, exists_prop]
  refine exists_congr fun i => and_congr_right fun hi => ?_
  rw [Bool.not_eq_true', Bool.not_eq_false, List.all_map, List.all_eq_true]
  refine forall₂_congr fun f hf => ?_
  rw [hover.evaluate hi f hf, Option.some.injEq]
  exact beq_iff_eq

/-- Statements that agree are not opposed. -/
theorem Statement.Agree.not_opposed (h : symbols.Nodup) (hagree : Agree symbols statements) :
    ¬Opposed symbols statements := by
  rintro ⟨f, g, rfl, hopposed⟩
  obtain ⟨i, hi⟩ := exists_assignsAll h
  obtain ⟨value, hvalue⟩ := hagree i hi
  obtain ⟨other, hf, hg⟩ := hopposed i hi
  rw [hvalue f (by simp)] at hf
  rw [hvalue g (by simp), Option.some.inj hf] at hg
  cases other <;> exact absurd hg (by decide)

end

/-! ## What a comparison says -/

/-- The comparison says how the statements are related under the interpretations of the symbols. -/
structure Comparison.Relates (c : Comparison) (symbols : List Symbol) (statements : List Statement) : Prop where
  equivalent_iff : c.relation = .equivalent ↔ Statement.Agree symbols statements
  contradictory_iff : c.relation = .contradictory ↔ Statement.Opposed symbols statements
  neither_iff : c.relation = .neither ↔
    ¬Statement.Agree symbols statements ∧ ¬Statement.Opposed symbols statements
  consistent_iff : c.consistent = true ↔ Statement.Consistent symbols statements

/-- **A table that shows statements on all rows compares them.** -/
theorem Table.comparison_relates {t : Table} {symbols : List Symbol} {statements : List Statement}
    (h : symbols.Nodup) (hover : Statement.Over symbols statements)
    (hrows : (List.range t.rowCount).map (valuesOn t.mainColumns) = rowValues symbols statements) :
    t.comparison.Relates symbols statements := by
  have hequal := all_allEqual_iff h hover
  have hopposite := all_areOpposite_iff h hover
  have hrelation : t.comparison.relation = if (rowValues symbols statements).all allEqual then .equivalent
      else if (rowValues symbols statements).all areOpposite then .contradictory else .neither := by
    rw [← hrows]
    rfl
  have hconsistent : t.comparison.consistent = true ↔ Statement.Consistent symbols statements := by
    rw [← any_all_iff h hover, ← hrows]
    rfl
  by_cases hagree : Statement.Agree symbols statements
  · rw [if_pos (hequal.mpr hagree)] at hrelation
    have hnot := hagree.not_opposed h
    exact ⟨by simp [hrelation, hagree], by simp [hrelation, hnot], by simp [hrelation, hagree], hconsistent⟩
  · rw [if_neg (mt hequal.mp hagree)] at hrelation
    by_cases hopposed : Statement.Opposed symbols statements
    · rw [if_pos (hopposite.mpr hopposed)] at hrelation
      exact ⟨by simp [hrelation, hagree], by simp [hrelation, hopposed], by simp [hrelation, hopposed],
        hconsistent⟩
    · rw [if_neg (mt hopposite.mp hopposed)] at hrelation
      exact ⟨by simp [hrelation, hagree], by simp [hrelation, hopposed], by simp [hrelation, hagree, hopposed],
        hconsistent⟩

/-- A joint table compares its sentences. -/
theorem Table.Shows.relates {t : Table} {sentences : List Sentence}
    (hshows : t.Shows (sentences.map (jointColumn sentences ·.statement)))
    (hheight : t.HasHeight (rowTotal (symbolsOf sentences).length)) :
    t.comparison.Relates (symbolsOf sentences) (sentences.map Sentence.statement) := by
  refine Table.comparison_relates (nodup_distinct _) ?_ ?_
  · refine List.forall_mem_map.mpr fun u hu s hs => ?_
    exact mem_symbolsOf.mpr ⟨u, hu, hs⟩
  · rw [hheight.rowCount, hshows.2, rowValues]
    refine List.map_congr_left fun row hrow => ?_
    rw [valuesOn_jointColumn (List.mem_range.mp hrow), List.map_map]
    rfl

/-! ## Any sequence -/

section

variable {symbols others : List Symbol} {statements permuted : List Statement}

/-- The same symbols have the same interpretations. -/
theorem assignsAll_congr (hsymbols : ∀ s, s ∈ symbols ↔ s ∈ others) (i : Interpretation) :
    i.AssignsAll symbols ↔ i.AssignsAll others :=
  forall_congr' fun s => imp_congr_left (hsymbols s)

theorem agree_congr (hsymbols : ∀ s, s ∈ symbols ↔ s ∈ others) (hperm : statements.Perm permuted) :
    Statement.Agree symbols statements ↔ Statement.Agree others permuted := by
  refine forall_congr' fun i => imp_congr (assignsAll_congr hsymbols i) (exists_congr fun value => ?_)
  exact forall_congr' fun f => imp_congr_left hperm.mem_iff

theorem consistent_congr (hsymbols : ∀ s, s ∈ symbols ↔ s ∈ others) (hperm : statements.Perm permuted) :
    Statement.Consistent symbols statements ↔ Statement.Consistent others permuted := by
  refine exists_congr fun i => and_congr (assignsAll_congr hsymbols i) ?_
  exact forall_congr' fun f => imp_congr_left hperm.mem_iff

/-- Opposed statements are opposed the other way round. -/
theorem Statement.Opposed.perm (h : Opposed symbols statements) (hsymbols : ∀ s, s ∈ symbols ↔ s ∈ others)
    (hperm : statements.Perm permuted) : Opposed others permuted := by
  obtain ⟨f, g, rfl, hopposed⟩ := h
  rcases List.perm_pair.mp hperm.symm with rfl | rfl
  · refine ⟨f, g, rfl, fun i hi => ?_⟩
    exact hopposed i ((assignsAll_congr hsymbols i).mpr hi)
  · refine ⟨g, f, rfl, fun i hi => ?_⟩
    obtain ⟨value, hf, hg⟩ := hopposed i ((assignsAll_congr hsymbols i).mpr hi)
    exact ⟨!value, hg, by rw [hf, Bool.not_not]⟩

theorem opposed_congr (hsymbols : ∀ s, s ∈ symbols ↔ s ∈ others) (hperm : statements.Perm permuted) :
    Statement.Opposed symbols statements ↔ Statement.Opposed others permuted :=
  ⟨fun h => h.perm hsymbols hperm, fun h => h.perm (fun s => (hsymbols s).symm) hperm.symm⟩

/-- **The comparison of statements does not depend on their sequence**, nor on that of their symbols. -/
theorem Comparison.Relates.eq_of_perm {c d : Comparison} (hc : c.Relates symbols statements)
    (hd : d.Relates others permuted) (hsymbols : ∀ s, s ∈ symbols ↔ s ∈ others)
    (hperm : statements.Perm permuted) : c = d := by
  have hagree := agree_congr hsymbols hperm
  have hopposed := opposed_congr hsymbols hperm
  have hrelation : d.relation = c.relation := by
    cases hcase : c.relation with
    | equivalent => exact hd.equivalent_iff.mpr (hagree.mp (hc.equivalent_iff.mp hcase))
    | contradictory => exact hd.contradictory_iff.mpr (hopposed.mp (hc.contradictory_iff.mp hcase))
    | neither =>
      obtain ⟨hnotagree, hnotopposed⟩ := hc.neither_iff.mp hcase
      exact hd.neither_iff.mpr ⟨mt hagree.mpr hnotagree, mt hopposed.mpr hnotopposed⟩
  have hconsistent : c.consistent = d.consistent := by
    rw [Bool.eq_iff_iff, hc.consistent_iff, hd.consistent_iff]
    exact consistent_congr hsymbols hperm
  obtain ⟨relation, consistent⟩ := c
  obtain ⟨relation', consistent'⟩ := d
  rw [Comparison.mk.injEq]
  exact ⟨hrelation.symm, hconsistent⟩

end

/-- Sentences in another sequence have the same symbols. -/
theorem perm_symbolsOf {sentences permuted : List Sentence} (h : sentences.Perm permuted) :
    (symbolsOf sentences).Perm (symbolsOf permuted) := by
  refine (List.perm_ext_iff_of_nodup (nodup_distinct _) (nodup_distinct _)).mpr fun s => ?_
  show s ∈ symbolsOf sentences ↔ s ∈ symbolsOf permuted
  rw [mem_symbolsOf, mem_symbolsOf]
  exact exists_congr fun t => and_congr_left' h.mem_iff

/-- **A comparison is about all interpretations.** Within the limit, the comparison on either view of the joint
    table says how the statements are related under the interpretations of the symbols, and it is the same for
    the sentences in any other sequence. -/
theorem jointTable_compares {limit : Limit} {sentences : List Sentence} (isArgument : Bool)
    (hne : sentences ≠ []) (hlimit : (symbolsOf sentences).length ≤ limit.enforced) :
    ∃ joint, jointTable limit isArgument sentences = .ok joint ∧ joint.constants = symbolsOf sentences ∧
      joint.detailed.comparison.Relates joint.constants (sentences.map Sentence.statement) ∧
      joint.simple.comparison.Relates joint.constants (sentences.map Sentence.statement) ∧
      ∀ (permuted : List Sentence) (isArgument' : Bool), sentences.Perm permuted →
        ∃ joint', jointTable limit isArgument' permuted = .ok joint' ∧
          joint'.detailed.comparison = joint.detailed.comparison ∧
          joint'.simple.comparison = joint.simple.comparison := by
  obtain ⟨joint, hjoint, hshow⟩ := jointTable_shows isArgument hne hlimit
  have hdetailed := hshow.detailed.relates hshow.height_detailed
  have hsimple := hshow.simple.relates hshow.height_simple
  refine ⟨joint, hjoint, hshow.constants, ?_, ?_, fun permuted isArgument' hperm => ?_⟩
  · rwa [hshow.constants]
  · rwa [hshow.constants]
  · have hsymbols := perm_symbolsOf hperm
    have hstatements := hperm.map Sentence.statement
    have hne' : permuted ≠ [] := by
      rintro rfl
      exact hne hperm.eq_nil
    rw [hsymbols.length_eq] at hlimit
    obtain ⟨joint', hjoint', hshow'⟩ := jointTable_shows isArgument' hne' hlimit
    refine ⟨joint', hjoint', ?_, ?_⟩
    · have hdetailed' := hshow'.detailed.relates hshow'.height_detailed
      exact (hdetailed.eq_of_perm hdetailed' (fun s => hsymbols.mem_iff) hstatements).symm
    · have hsimple' := hshow'.simple.relates hshow'.height_simple
      exact (hsimple.eq_of_perm hsimple' (fun s => hsymbols.mem_iff) hstatements).symm

/-- Two sentences with opposite values, whose symbols change places with them. -/
theorem jointTable_compares_opposed :
    ∃ p q, Sentence.parse "A > B" = .ok p ∧ Sentence.parse "~B & A" = .ok q ∧ [p, q] ≠ [] ∧
      (symbolsOf [p, q]).length ≤ Limit.enforced {} ∧ [p, q].Perm [q, p] ∧
      symbolsOf [p, q] = [⟨"A"⟩, ⟨"B"⟩] ∧ symbolsOf [q, p] = [⟨"B"⟩, ⟨"A"⟩] ∧
      ∃ joint, jointTable {} false [p, q] = .ok joint ∧
        joint.detailed.comparison.Relates joint.constants [p.statement, q.statement] ∧
        joint.simple.comparison.Relates joint.constants [p.statement, q.statement] ∧
        joint.detailed.comparison = ⟨.contradictory, false⟩ ∧
        ∃ joint', jointTable {} true [q, p] = .ok joint' ∧
          joint'.detailed.comparison = joint.detailed.comparison ∧
          joint'.simple.comparison = joint.simple.comparison := by
  obtain ⟨p, q, hp, hq, hlimit, hsymbols, hsymbols', hshown⟩ : ∃ p q, Sentence.parse "A > B" = .ok p ∧
      Sentence.parse "~B & A" = .ok q ∧ (symbolsOf [p, q]).length ≤ Limit.enforced {} ∧
      symbolsOf [p, q] = [⟨"A"⟩, ⟨"B"⟩] ∧ symbolsOf [q, p] = [⟨"B"⟩, ⟨"A"⟩] ∧
      (jointTable {} false [p, q]).map (·.detailed.comparison) = .ok ⟨.contradictory, false⟩ :=
    ⟨.binary .conditional ">" (.symbol ⟨"A"⟩) (.symbol ⟨"B"⟩),
      .binary .conjunction "&" (.negation "~" (.symbol ⟨"B"⟩)) (.symbol ⟨"A"⟩),
      by decide +kernel, by decide +kernel, by decide, by decide, by decide, by decide +kernel⟩
  have hne : [p, q] ≠ [] := List.cons_ne_nil p [q]
  have hperm : [p, q].Perm [q, p] := .swap q p []
  obtain ⟨joint, hjoint, -, hdetailed, hsimple, hpermuted⟩ := jointTable_compares false hne hlimit
  rw [hjoint] at hshown
  exact ⟨p, q, hp, hq, hne, hlimit, hperm, hsymbols, hsymbols', joint, hjoint, hdetailed, hsimple,
    Except.ok.inj hshown, hpermuted [q, p] true hperm⟩

end Sentential
