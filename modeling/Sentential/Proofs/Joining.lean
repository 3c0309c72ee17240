import Sentential.Proofs.Results
import Sentential.Proofs.Rows
import Sentential.Verdict

/-!
# `Sentential.Proofs.Joining` — main columns of tables side by side

Where tables stand side by side, their main columns move by the columns and separators in front of them. A
table **shows** columns if its main places exist and hold these columns; two tables with a separator between
them show what both show, and so does any number of tables. Both views of a joint table therefore show the
values of its statements, in order, and all their columns are of one height (`jointTable_shows`). A verdict on
such a table is one on these values.

## Contents
* `Table.Shows`, `Table.HasHeight` — the columns at the main places, the height of all columns
* `Table.shows_join`, `Table.hasHeight_join` — tables side by side
* `AreViews`, `views_eq_ok` — the views of one sentence
* `jointTable_views`, `join_views`, `jointTable_shows` — both views of a joint table
* `valuesOn_jointColumn`, `comparison_of_shows` — what a row shows; sentences with one column are equivalent
-/

namespace Sentential

/-! ## Main columns -/

namespace Table

/-- The main places exist and hold the columns. -/
def Shows (t : Table) (columns : List (Array Bool)) : Prop :=
  (∀ place ∈ t.mains, place < t.columns.length) ∧ t.mainColumns = columns

/-- Two tables with a separator between them show what both show. -/
theorem Shows.beside {left right : Table} {cs ds : List (Array Bool)} (hleft : left.Shows cs)
    (separator : Column) (hright : right.Shows ds) : (left.beside separator right).Shows (cs ++ ds) := by
  obtain ⟨hleftplaces, rfl⟩ := hleft
  obtain ⟨hrightplaces, rfl⟩ := hright
  refine ⟨fun place hplace => ?_, ?_⟩
  · unfold Table.beside at hplace ⊢
    simp only [List.mem_append, List.mem_map, List.length_append, List.length_cons] at hplace ⊢
    rcases hplace with hplace | ⟨place', hplace', rfl⟩
    · have := hleftplaces place hplace
      omega
    · have := hrightplaces place' hplace'
      omega
  · unfold Table.mainColumns Table.beside
    simp only [List.map_append, List.map_map]
    congr 1
    · refine List.map_congr_left fun place hplace => ?_
      simp only [cellsAt]
      rw [List.getElem?_append_left (hleftplaces place hplace)]
    · -- a place on the right moves by the columns on the left and the separator
      refine List.map_congr_left fun place _ => ?_
      simp only [Function.comp, cellsAt]
      rw [List.getElem?_append_right (by omega)]
      have hoffset : left.columns.length + 1 + place - left.columns.length = place + 1 := by omega
      rw [hoffset, List.getElem?_cons_succ]

/-- Tables side by side show what each of them shows. -/
theorem shows_join (isArgument : Bool) (height : Nat) {tables : List Table} {columns : List (Array Bool)}
    (h : List.Forall₂ (fun t cells => t.Shows [cells]) tables columns) :
    (join isArgument height tables).Shows columns := by
  induction h with
  | nil => exact ⟨by simp [join], rfl⟩
  | @cons t cells rest columns ht hrest ih =>
    cases hrest with
    | nil => exact ht
    | cons hu hrest => exact ht.beside _ ih

/-- There is a column, and all columns have the height. -/
def HasHeight (t : Table) (height : Nat) : Prop :=
  t.columns ≠ [] ∧ ∀ column ∈ t.columns, column.height = height

theorem HasHeight.rowCount {t : Table} {height : Nat} (h : t.HasHeight height) : t.rowCount = height := by
  obtain ⟨hne, hheight⟩ := h
  unfold Table.rowCount
  split
  · rename_i hnil
    exact absurd hnil hne
  · rename_i first rest hcons
    exact hheight first (hcons ▸ List.mem_cons_self)

/-- Tables of one height with a separator of this height between them have it again. -/
theorem HasHeight.beside {left right : Table} {height : Nat} (hleft : left.HasHeight height) {separator : Column}
    (hseparator : separator.height = height) (hright : right.HasHeight height) :
    (left.beside separator right).HasHeight height := by
  refine ⟨by simp [Table.beside], fun column hcolumn => ?_⟩
  rcases List.mem_append.mp hcolumn with hcolumn | hcolumn
  · exact hleft.2 column hcolumn
  · rcases List.mem_cons.mp hcolumn with rfl | hcolumn
    · exact hseparator
    · exact hright.2 column hcolumn

theorem hasHeight_join (isArgument : Bool) (height : Nat) {tables : List Table} (hne : tables ≠ [])
    (h : ∀ t ∈ tables, t.HasHeight height) : (join isArgument height tables).HasHeight height := by
  fun_induction join isArgument height tables with
  | case1 => exact absurd rfl hne
  | case2 last => exact h last List.mem_cons_self
  | case3 t rest hrest header ih =>
    exact (h t List.mem_cons_self).beside rfl (ih hrest fun u hu => h u (List.mem_cons_of_mem t hu))

end Table

/-! ## One sentence -/

/-- The detailed view shows the main column of its block. -/
theorem Block.detailed_shows {b : Block} {t : Sentence} (h : b.columns.length = t.headers.length) :
    (b.detailed t).Shows [b.main] := by
  have hmain : b.columns[b.before.length]? = some b.main := by simp [columns]
  have hplace : b.before.length < t.headers.length := by
    rw [← h]
    simp [columns]
  refine ⟨?_, ?_⟩
  · intro place hmem
    obtain rfl : place = b.before.length := by simpa [detailed] using hmem
    simp only [detailed, List.length_zipWith, h, Nat.min_self]
    exact hplace
  · simp [Table.mainColumns, Table.cellsAt, detailed, List.getElem?_zipWith, hmain, hplace, Column.cells?]

/-- The simple view shows the main column of its block. -/
theorem Block.simple_shows (b : Block) (constants : Assignment (Array Bool)) (t : Sentence) :
    (b.simple constants t).Shows [b.main] := by
  refine ⟨?_, ?_⟩
  · intro place hmem
    obtain rfl : place = constants.pairs.length := by simpa [simple] using hmem
    simp [simple]
  · simp [Table.mainColumns, Table.cellsAt, simple, Column.cells?]

/-- The pair holds both views of the sentence over constant columns of the height. -/
def AreViews (constants : Assignment (Array Bool)) (height : Nat) (t : Sentence) (views : Table × Table) : Prop :=
  ∃ b : Block, b.Tabulates constants height t ∧ views = (b.detailed t, b.simple constants t)

section

variable {constants : Assignment (Array Bool)} {height : Nat} {t : Sentence} {views : Table × Table}

theorem views_eq_ok (h : Covers constants height t.statement) :
    ∃ views, t.views constants = .ok views ∧ AreViews constants height t views := by
  obtain ⟨b, hb, ht⟩ := evaluate_tabulates h
  exact ⟨(b.detailed t, b.simple constants t), by simp only [Sentence.views, hb], b, ht, rfl⟩

/-- Both views show the values of the statement. -/
theorem AreViews.shows (h : AreViews constants height t views) :
    views.1.Shows [Statement.column constants height t.statement] ∧
      views.2.Shows [Statement.column constants height t.statement] := by
  obtain ⟨b, ht, rfl⟩ := h
  rw [← ht.main]
  exact ⟨Block.detailed_shows ht.length_columns, b.simple_shows constants t⟩

/-- Both views have the height of the constant columns. -/
theorem AreViews.hasHeight (h : AreViews constants height t views)
    (hconstants : ∀ p ∈ constants.pairs, p.2.size = height) :
    views.1.HasHeight height ∧ views.2.HasHeight height := by
  obtain ⟨b, ht, rfl⟩ := h
  refine ⟨⟨?_, fun column hcolumn => ?_⟩, by simp [Block.simple], fun column hcolumn => ?_⟩
  · rw [← List.length_pos_iff, Block.detailed, List.length_zipWith, ← ht.length_columns, Nat.min_self,
      Block.columns, List.length_append, List.length_cons]
    omega
  · -- a column of the detailed view belongs to a node
    obtain ⟨k, hk, rfl⟩ := List.getElem_of_mem hcolumn
    simp only [Block.detailed, ht.columns, List.getElem_zipWith, List.getElem_map, Column.height]
    exact Statement.size_column ..
  · rcases List.mem_append.mp hcolumn with hcolumn | hcolumn
    · obtain ⟨p, hp, rfl⟩ := List.mem_map.mp hcolumn
      exact hconstants p hp
    · obtain rfl := List.mem_singleton.mp hcolumn
      rw [Column.height, ht.main]
      exact Statement.size_column ..

end

/-! ## Several sentences -/

/-- The distinct symbols of sentences by first occurrence. -/
def symbolsOf (sentences : List Sentence) : List Symbol := distinct (sentences.flatMap (·.statement.leaves))

theorem mem_symbolsOf {sentences : List Sentence} {s : Symbol} :
    s ∈ symbolsOf sentences ↔ ∃ t ∈ sentences, s ∈ t.statement.leaves := by
  rw [symbolsOf, mem_distinct, List.mem_flatMap]

/-- The values of a statement on the rows of a joint table. -/
def jointColumn (sentences : List Sentence) (f : Statement) : Array Bool :=
  Statement.column (constantColumns (symbolsOf sentences)) (rowTotal (symbolsOf sentences).length) f

variable {limit : Limit} {isArgument : Bool} {sentences : List Sentence}

/-- Within the limit, a joint table enumerates all symbols of its sentences. -/
theorem symbolsWithin_eq (h : (symbolsOf sentences).length ≤ limit.enforced) :
    symbolsWithin limit sentences = .ok (symbolsOf sentences) := by
  have hcheck : limit.check (symbolsOf sentences).length = .ok () := by
    unfold Limit.check
    rw [if_neg (Nat.not_lt.mpr h)]
  unfold symbolsOf at hcheck ⊢
  simp only [symbolsWithin, hcheck]

/-- The joint table of sentences is made of their views. -/
theorem jointTable_eq {symbols : List Symbol} {views : List (Table × Table)} (hne : sentences ≠ [])
    (hsymbols : symbolsWithin limit sentences = .ok symbols)
    (hviews : sentences.mapM (·.views (constantColumns symbols)) = .ok views) :
    jointTable limit isArgument sentences =
      .ok ⟨Table.join isArgument (rowTotal symbols.length) (views.map Prod.fst),
        Table.join isArgument (rowTotal symbols.length) (views.map Prod.snd), symbols⟩ := by
  have hsome : ¬sentences.isEmpty = true := by simpa using hne
  unfold jointTable
  rw [if_neg hsome, hsymbols]
  refine bind_eq_ok_iff.mpr ⟨symbols, rfl, bind_eq_ok_iff.mpr ⟨views, hviews, rfl⟩⟩

/-- **Within the limit, a joint table is made of the views of its sentences.** -/
theorem jointTable_views (isArgument : Bool) (hne : sentences ≠ [])
    (hlimit : (symbolsOf sentences).length ≤ limit.enforced) :
    ∃ views, List.Forall₂ (fun t v => t.views (constantColumns (symbolsOf sentences)) = .ok v ∧
        AreViews (constantColumns (symbolsOf sentences)) (rowTotal (symbolsOf sentences).length) t v)
        sentences views ∧
      jointTable limit isArgument sentences =
        .ok ⟨Table.join isArgument (rowTotal (symbolsOf sentences).length) (views.map Prod.fst),
          Table.join isArgument (rowTotal (symbolsOf sentences).length) (views.map Prod.snd),
          symbolsOf sentences⟩ := by
  have hcovers : ∀ t ∈ sentences, Covers (constantColumns (symbolsOf sentences))
      (rowTotal (symbolsOf sentences).length) t.statement := by
    intro t ht
    exact covers_constantColumns (nodup_distinct _) fun s hs => mem_symbolsOf.mpr ⟨t, ht, hs⟩
  have hviews : ∀ t ∈ sentences, ∃ v, t.views (constantColumns (symbolsOf sentences)) = .ok v ∧
      t.views (constantColumns (symbolsOf sentences)) = .ok v ∧
      AreViews (constantColumns (symbolsOf sentences)) (rowTotal (symbolsOf sentences).length) t v := by
    intro t ht
    obtain ⟨v, hv, hare⟩ := views_eq_ok (hcovers t ht)
    exact ⟨v, hv, hv, hare⟩
  obtain ⟨views, hviews, hare⟩ := exists_mapM_eq_ok hviews
  exact ⟨views, hare, jointTable_eq hne (symbolsWithin_eq hlimit) hviews⟩

/-- Both views show the values of the statements of sentences, on all rows over the sentences' symbols. -/
structure TableViews.Show (views : TableViews) (sentences : List Sentence) : Prop where
  constants : views.constants = symbolsOf sentences
  detailed : views.detailed.Shows (sentences.map (jointColumn sentences ·.statement))
  simple : views.simple.Shows (sentences.map (jointColumn sentences ·.statement))
  height_detailed : views.detailed.HasHeight (rowTotal (symbolsOf sentences).length)
  height_simple : views.simple.HasHeight (rowTotal (symbolsOf sentences).length)

/-- Where the same view of every sentence shows its statement, these views show the statements side by side. -/
theorem join_views {constants : Assignment (Array Bool)} {height : Nat} {views : List (Table × Table)}
    (hne : sentences ≠ []) (hare : List.Forall₂ (AreViews constants height) sentences views)
    {view : Table × Table → Table} (hview : ∀ t v, AreViews constants height t v →
      (view v).Shows [Statement.column constants height t.statement] ∧ (view v).HasHeight height) :
    (Table.join isArgument height (views.map view)).Shows
        (sentences.map fun t => Statement.column constants height t.statement) ∧
      (Table.join isArgument height (views.map view)).HasHeight height := by
  constructor
  · refine Table.shows_join isArgument height ?_
    rw [List.forall₂_map_left_iff, List.forall₂_map_right_iff]
    exact (hare.imp fun t v h => (hview t v h).1).flip
  · have hviews : views ≠ [] := by
      rintro rfl
      exact hne (List.forall₂_nil_right_iff.mp hare)
    refine Table.hasHeight_join isArgument height (by simpa using hviews) fun u hu => ?_
    obtain ⟨v, hv, rfl⟩ := List.mem_map.mp hu
    obtain ⟨t, _, ht⟩ := exists_of_mem_right hare hv
    exact (hview t v ht).2

/-- **Within the limit, both views of a joint table show the values of its statements.** -/
theorem jointTable_shows (isArgument : Bool) (hne : sentences ≠ [])
    (hlimit : (symbolsOf sentences).length ≤ limit.enforced) :
    ∃ views, jointTable limit isArgument sentences = .ok views ∧ views.Show sentences := by
  obtain ⟨views, hviews, htable⟩ := jointTable_views isArgument hne hlimit
  have hare := hviews.imp fun t v h => h.2
  have hconstants : ∀ p ∈ (constantColumns (symbolsOf sentences)).pairs,
      p.2.size = rowTotal (symbolsOf sentences).length :=
    fun p hp => size_of_mem_constantColumns (nodup_distinct _) hp
  obtain ⟨hdetailed, hdetailedheight⟩ := join_views hne hare fun t v h => ⟨h.shows.1, (h.hasHeight hconstants).1⟩
  obtain ⟨hsimple, hsimpleheight⟩ := join_views hne hare fun t v h => ⟨h.shows.2, (h.hasHeight hconstants).2⟩
  exact ⟨_, htable, rfl, hdetailed, hsimple, hdetailedheight, hsimpleheight⟩

/-! ## Verdicts -/

/-- What a joint table shows on a row are the values of the statements on that row. -/
theorem valuesOn_jointColumn {row : Nat} (hrow : row < rowTotal (symbolsOf sentences).length)
    (statements : List Sentence) :
    valuesOn (statements.map (jointColumn sentences ·.statement)) row =
      statements.map fun t => t.statement.eval (rowValuation (constantColumns (symbolsOf sentences)) row) := by
  rw [valuesOn, List.map_map]
  refine List.map_congr_left fun t _ => ?_
  rw [Function.comp, Array.getD_eq_getD_getElem?, jointColumn, Statement.getElem?_column _ hrow,
    Option.getD_some]

/-- Sentences with one column are equivalent. -/
theorem comparison_of_shows {t : Table} {cells : Array Bool} (h : t.Shows [cells, cells]) :
    t.comparison.relation = .equivalent := by
  have hrows : ((List.range t.rowCount).map (valuesOn t.mainColumns)).all allEqual = true := by
    rw [h.2, List.all_map, List.all_eq_true]
    -- both columns give the same value, on rows past their end as well
    intro row _
    simp [valuesOn, allEqual]
  simp only [Table.comparison, hrows, if_true]

end Sentential
