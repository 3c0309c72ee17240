import Sentential.Proofs.Tables

/-!
# `Sentential.Proofs.Arguments` — validity of an argument is entailment

The verdict on an argument collects the rows on which its table shows true premises and a false conclusion.
What a table shows on a row are values under the row's interpretation, so that a counterexample is a refuting
interpretation; and since every interpretation of the symbols is that of some row, an argument without
counterexample is one whose premises entail its conclusion. The verdict is the same on both views, and it can
also be read off the main column of one sentence, the conditional from all premises to the conclusion.

## Contents
* `refutes_append` — a row refutes an argument
* `validity_of_show` — the verdict on a joint table, by the values of the statements
* `Validity.Judges` — what a verdict says of premises and a conclusion
* `Statement.conjoined`, `falseRows` — the conditional of an argument, and where it is false
* `jointTable_verdict`, `jointTable_judges` — the verdict on an argument
-/

namespace Sentential

/-! ## Rows that refute an argument -/

/-- Values refute an argument if those of the premises are true and the last one is false. -/
theorem refutes_append (premises : List Bool) (conclusion : Bool) :
    refutes (premises ++ [conclusion]) = (premises.all id && !conclusion) := by
  induction premises with
  | nil => rfl
  | cons p rest ih =>
    have hcons : refutes (p :: (rest ++ [conclusion])) = (p && refutes (rest ++ [conclusion])) := by
      cases rest <;> rfl
    rw [List.cons_append, hcons, ih, List.all_cons, Bool.and_assoc, id]

/-- A row refutes an argument if the premises are true on it and the conclusion is false. -/
def refutedOn (constants : Assignment (Array Bool)) (premises : List Statement) (conclusion : Statement)
    (row : Nat) : Bool :=
  premises.all (·.eval (rowValuation constants row)) && !conclusion.eval (rowValuation constants row)

variable {premises : List Sentence} {conclusion : Sentence}

/-- What a joint table shows on a row refutes the argument if the row does. -/
theorem refutes_valuesOn {row : Nat} (hrow : row < rowTotal (symbolsOf (premises ++ [conclusion])).length) :
    refutes (valuesOn ((premises ++ [conclusion]).map
        (jointColumn (premises ++ [conclusion]) ·.statement)) row) =
      refutedOn (constantColumns (symbolsOf (premises ++ [conclusion]))) (premises.map Sentence.statement)
        conclusion.statement row := by
  rw [valuesOn_jointColumn hrow, List.map_append, List.map_singleton, refutes_append, refutedOn]
  simp only [List.all_map, Function.comp_def, id]

/-- **The counterexamples in a joint table are the rows that refute the argument**, in both views. -/
theorem validity_of_show {views : TableViews} (h : views.Show (premises ++ [conclusion])) :
    views.detailed.validity = views.simple.validity ∧
      views.simple.validity.counterexamples =
        (List.range (rowTotal (symbolsOf (premises ++ [conclusion])).length)).filter
          (refutedOn (constantColumns (symbolsOf (premises ++ [conclusion])))
            (premises.map Sentence.statement) conclusion.statement) := by
  unfold Table.validity
  rw [h.detailed.2, h.simple.2, h.height_detailed.rowCount, h.height_simple.rowCount]
  refine ⟨rfl, List.filter_congr fun row hrow => ?_⟩
  exact refutes_valuesOn (List.mem_range.mp hrow)

/-! ## What a verdict says -/

/-- The verdict says whether the premises entail the conclusion, and on which rows over the symbols they do
    not. -/
structure Validity.Judges (v : Validity) (symbols : List Symbol) (premises : List Statement)
    (conclusion : Statement) : Prop where
  increasing : v.counterexamples.Pairwise (· < ·)
  mem_iff : ∀ row, row ∈ v.counterexamples ↔ row < 2 ^ symbols.length ∧
    (∀ p ∈ premises, (Interpretation.forRow symbols row).evaluate p = some true) ∧
    (Interpretation.forRow symbols row).evaluate conclusion = some false
  valid_iff : v.valid = true ↔ ∀ i : Interpretation, (∀ s ∈ symbols, (i.get? s).isSome = true) →
    (∀ p ∈ premises, i.evaluate p = some true) → i.evaluate conclusion = some true

section

variable {symbols : List Symbol} {premises : List Statement} {conclusion : Statement}

/-- A row refutes an argument exactly when its interpretation does. -/
theorem refutedOn_iff (h : symbols.Nodup) (hpremises : ∀ p ∈ premises, ∀ s ∈ p.leaves, s ∈ symbols)
    (hconclusion : ∀ s ∈ conclusion.leaves, s ∈ symbols) {row : Nat} (hrow : row < rowTotal symbols.length) :
    refutedOn (constantColumns symbols) premises conclusion row = true ↔
      (∀ p ∈ premises, (Interpretation.forRow symbols row).evaluate p = some true) ∧
      (Interpretation.forRow symbols row).evaluate conclusion = some false := by
  rw [refutedOn, Bool.and_eq_true, List.all_eq_true, Bool.not_eq_true', evaluate_forRow h hconclusion hrow,
    Option.some.injEq]
  refine and_congr_left' (forall₂_congr fun p hp => ?_)
  rw [evaluate_forRow h (hpremises p hp) hrow, Option.some.injEq]

/-- If no row refutes an argument, no interpretation of the symbols does. -/
theorem evaluate_of_not_refutedOn (h : symbols.Nodup)
    (hpremises : ∀ p ∈ premises, ∀ s ∈ p.leaves, s ∈ symbols)
    (hconclusion : ∀ s ∈ conclusion.leaves, s ∈ symbols)
    (hrows : ∀ row < rowTotal symbols.length, refutedOn (constantColumns symbols) premises conclusion row = false)
    {i : Interpretation} (hi : ∀ s ∈ symbols, (i.get? s).isSome = true)
    (htrue : ∀ p ∈ premises, i.evaluate p = some true) : i.evaluate conclusion = some true := by
  -- the interpretation gives every statement over the symbols its value on some row
  obtain ⟨row, hrow, heval⟩ := exists_row_eval h i.valuation
  have hassigns : i.Assigns conclusion :=
    Interpretation.assigns_iff.mpr fun s hs => hi s (hconclusion s hs)
  have hnot := hrows row hrow
  have hall : premises.all (·.eval (rowValuation (constantColumns symbols) row)) = true := by
    refine List.all_eq_true.mpr fun p hp => ?_
    rw [heval p (hpremises p hp)]
    exact Interpretation.eval_of_evaluate (htrue p hp)
  rw [refutedOn, hall, Bool.true_and, heval conclusion hconclusion, Bool.not_eq_false'] at hnot
  rw [Interpretation.evaluate_of_assigns hassigns, hnot]

/-- **The rows that refute an argument make a verdict on it.** -/
theorem judges_of_counterexamples (h : symbols.Nodup) (hpremises : ∀ p ∈ premises, ∀ s ∈ p.leaves, s ∈ symbols)
    (hconclusion : ∀ s ∈ conclusion.leaves, s ∈ symbols) {v : Validity}
    (hv : v.counterexamples = (List.range (rowTotal symbols.length)).filter
      (refutedOn (constantColumns symbols) premises conclusion)) :
    v.Judges symbols premises conclusion := by
  have hmem : ∀ row, row ∈ v.counterexamples ↔ row < rowTotal symbols.length ∧
      refutedOn (constantColumns symbols) premises conclusion row = true := by
    intro row
    rw [hv, List.mem_filter, List.mem_range]
  have hvalid : v.valid = true ↔
      ∀ row < rowTotal symbols.length, refutedOn (constantColumns symbols) premises conclusion row = false := by
    rw [Validity.valid, List.isEmpty_iff, List.eq_nil_iff_forall_not_mem]
    refine forall_congr' fun row => ?_
    rw [hmem, not_and, Bool.not_eq_true]
  refine ⟨?_, fun row => ?_, ?_⟩
  · rw [hv]
    exact List.pairwise_lt_range.filter _
  · rw [hmem, ← rowTotal_eq]
    exact and_congr_right fun hrow => refutedOn_iff h hpremises hconclusion hrow
  · rw [hvalid]
    constructor
    · intro hrows i hi htrue
      exact evaluate_of_not_refutedOn h hpremises hconclusion hrows hi htrue
    · -- the interpretation of a row is one of the symbols
      intro hentails row hrow
      rw [← Bool.not_eq_true, refutedOn_iff h hpremises hconclusion hrow]
      rintro ⟨htrue, hfalse⟩
      have hassigned : ∀ s ∈ symbols, ((Interpretation.forRow symbols row).get? s).isSome = true := by
        intro s hs
        rw [rowValuation_eq h hs hrow]
        rfl
      rw [hentails _ hassigned htrue] at hfalse
      exact absurd hfalse (by simp)

end

/-! ## The conditional of an argument -/

/-- A statement and others, joined by conjunction from the right. -/
def Statement.conjoined (first : Statement) : List Statement → Statement
  | [] => first
  | next :: rest => .binary .conjunction first (conjoined next rest)

theorem Statement.eval_conjoined (first : Statement) (rest : List Statement) (v : Symbol → Bool) :
    (conjoined first rest).eval v = (first :: rest).all (·.eval v) := by
  induction rest generalizing first with
  | nil => rw [conjoined, List.all_cons, List.all_nil, Bool.and_true]
  | cons next rest ih =>
    rw [conjoined, Formula.eval, ih, List.all_cons]
    rfl

theorem Statement.leaves_conjoined (first : Statement) (rest : List Statement) :
    (conjoined first rest).leaves = (first :: rest).flatMap Formula.leaves := by
  induction rest generalizing first with
  | nil => rw [conjoined, List.flatMap_cons, List.flatMap_nil, List.append_nil]
  | cons next rest ih =>
    rw [conjoined, Formula.leaves, ih]
    rfl

/-- The rows on which a column is false. -/
def falseRows (cells : Array Bool) : List Nat :=
  (List.range cells.size).filter fun row => cells[row]? == some false

/-- A conditional is false on the rows that refute the argument from its premises to its conclusion. -/
theorem falseRows_column (constants : Assignment (Array Bool)) (height : Nat) (first : Statement)
    (rest : List Statement) (conclusion : Statement) :
    falseRows (Statement.column constants height
        (.binary .conditional (Statement.conjoined first rest) conclusion)) =
      (List.range height).filter (refutedOn constants (first :: rest) conclusion) := by
  rw [falseRows, Statement.size_column]
  refine List.filter_congr fun row hrow => ?_
  rw [Statement.getElem?_column _ (List.mem_range.mp hrow), refutedOn, Formula.eval, Statement.eval_conjoined]
  cases (first :: rest).all (·.eval (rowValuation constants row)) <;>
    cases conclusion.eval (rowValuation constants row) <;> rfl

/-- The conditional has the symbols of the argument, in the same sequence. -/
theorem symbols_conditional {first : Statement} {rest : List Statement}
    (hpremises : premises.map Sentence.statement = first :: rest) {t : Sentence}
    (ht : t.statement = .binary .conditional (Statement.conjoined first rest) conclusion.statement) :
    t.symbols = symbolsOf (premises ++ [conclusion]) := by
  have hleaves : (premises ++ [conclusion]).flatMap (·.statement.leaves) = t.statement.leaves := by
    rw [ht, Formula.leaves, Statement.leaves_conjoined, ← hpremises, List.flatMap_map, List.flatMap_append,
      List.flatMap_singleton]
  rw [symbolsOf, hleaves]
  rfl

/-! ## The verdict on an argument -/

/-- Within the limit, the table of an argument judges it. -/
theorem jointTable_verdict {limit : Limit}
    (hlimit : (symbolsOf (premises ++ [conclusion])).length ≤ limit.enforced) :
    ∃ views, jointTable limit true (premises ++ [conclusion]) = .ok views ∧
      views.Show (premises ++ [conclusion]) ∧
      views.detailed.validity.Judges (symbolsOf (premises ++ [conclusion])) (premises.map Sentence.statement)
        conclusion.statement := by
  obtain ⟨views, hviews, hshow⟩ := jointTable_shows true (by simp) hlimit
  obtain ⟨hsame, hcounterexamples⟩ := validity_of_show hshow
  refine ⟨views, hviews, hshow, ?_⟩
  rw [hsame]
  refine judges_of_counterexamples (nodup_distinct _) (fun p hp s hs => ?_) (fun s hs => ?_) hcounterexamples
  · obtain ⟨t, ht, rfl⟩ := List.mem_map.mp hp
    exact mem_symbolsOf.mpr ⟨t, List.mem_append_left _ ht, hs⟩
  · exact mem_symbolsOf.mpr ⟨conclusion, by simp, hs⟩

/-- **The verdict on an argument is entailment.** Within the limit it is the same on both views of the joint
    table, says whether the premises entail the conclusion and on which rows they do not; and these are the
    rows on which the conditional from the premises to the conclusion is false in its own table. -/
theorem jointTable_judges {limit : Limit}
    (hlimit : (symbolsOf (premises ++ [conclusion])).length ≤ limit.enforced) :
    ∃ views, jointTable limit true (premises ++ [conclusion]) = .ok views ∧
      views.constants = symbolsOf (premises ++ [conclusion]) ∧
      views.detailed.validity = views.simple.validity ∧
      views.detailed.validity.Judges views.constants (premises.map Sentence.statement) conclusion.statement ∧
      ∀ first rest, premises.map Sentence.statement = first :: rest → ∀ t : Sentence,
        t.statement = .binary .conditional (Statement.conjoined first rest) conclusion.statement →
        ∃ single cells, t.table limit = .ok single ∧ single.detailed.mainColumns = [cells] ∧
          single.simple.mainColumns = [cells] ∧
          views.detailed.validity.counterexamples = falseRows cells := by
  obtain ⟨views, hviews, hshow, hjudges⟩ := jointTable_verdict hlimit
  obtain ⟨hsame, hcounterexamples⟩ := validity_of_show hshow
  refine ⟨views, hviews, hshow.constants, hsame, hshow.constants ▸ hjudges, ?_⟩
  intro first rest hpremises t ht
  have hsymbols := symbols_conditional hpremises ht
  rw [← hsymbols] at hlimit
  obtain ⟨single, hsingle, hdetailed, hsimple⟩ := table_shows hlimit
  refine ⟨single, _, hsingle, hdetailed, hsimple, ?_⟩
  rw [hsame, hcounterexamples, hpremises, hsymbols, ht, falseRows_column]

/-- A conditional and its consequent do not entail its antecedent. -/
theorem jointTable_judges_consequent :
    ∃ p q c t, Sentence.parse "A > B" = .ok p ∧ Sentence.parse "B" = .ok q ∧ Sentence.parse "A" = .ok c ∧
      Sentence.parse "((A > B) & B) > A" = .ok t ∧ (symbolsOf [p, q, c]).length ≤ Limit.enforced {} ∧
      ∃ views, jointTable {} true [p, q, c] = .ok views ∧
        views.detailed.validity.Judges views.constants [p.statement, q.statement] c.statement ∧
        ∃ single cells, t.table {} = .ok single ∧ single.simple.mainColumns = [cells] ∧
          views.detailed.validity.counterexamples = falseRows cells := by
  obtain ⟨p, q, c, t, hp, hq, hc, ht, hlimit, hconditional⟩ : ∃ p q c t,
      Sentence.parse "A > B" = .ok p ∧ Sentence.parse "B" = .ok q ∧ Sentence.parse "A" = .ok c ∧
      Sentence.parse "((A > B) & B) > A" = .ok t ∧ (symbolsOf ([p, q] ++ [c])).length ≤ Limit.enforced {} ∧
      t.statement = .binary .conditional (Statement.conjoined p.statement [q.statement]) c.statement :=
    ⟨.binary .conditional ">" (.symbol ⟨"A"⟩) (.symbol ⟨"B"⟩), .symbol ⟨"B"⟩, .symbol ⟨"A"⟩,
      .binary .conditional ">" (.group '(' (.binary .conjunction "&" (.group '(' (.binary .conditional ">"
        (.symbol ⟨"A"⟩) (.symbol ⟨"B"⟩)) ')') (.symbol ⟨"B"⟩)) ')') (.symbol ⟨"A"⟩),
      by decide +kernel, by decide +kernel, by decide +kernel, by decide +kernel, by decide, rfl⟩
  obtain ⟨views, hviews, -, -, hjudges, hsame⟩ := jointTable_judges hlimit
  obtain ⟨single, cells, hsingle, -, hsimple, hfalse⟩ := hsame _ _ rfl t hconditional
  exact ⟨p, q, c, t, hp, hq, hc, ht, hlimit, views, hviews, hjudges, single, cells, hsingle, hsimple, hfalse⟩

end Sentential
