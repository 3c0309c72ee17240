import Sentential.Proofs.Headers
import Sentential.Proofs.Printing
import Sentential.Table.Render
import Sentential.Text.Words

/-!
# `Sentential.Proofs.Rendering` — a table read back from its text

The text of a table is cut at its line feeds and its lines at their bars. A line of cells is the cells with a bar
behind each, after a first bar; so the cells come back from it exactly if no cell holds a bar itself
(`fields_ended_iff`). A truth value holds none, and a separator's cell is empty. But a header holds whatever the
sentence was written with, and it is not escaped: of all spellings of an operator `||` is the one with bars in it.

So the lines are always as many as they should be, and the lines of the rows always give back the rows. The line of
the headers gives back the headers only where the sources hold no bar, in both views of every table
(`Sentence.tables_readBack`).

## Contents
* `Text.ended`, `fields_ended_iff` — texts with a separator behind each, and cut at it
* `toList_render` — the text of a table as lines of cells
* `Table.HasLines`, `Table.ReadsBack`, `readsBack_iff` — a table as it stands in its text
* `Table.HeaderHas`, `headerHas_join`, `AreViews.headerHas_iff` — the characters of headers
* `Table.WrittenFrom`, `Sentence.tables_readBack` — the table of one sentence, and that of several
-/

namespace Sentential

open Text

/-! ## Cut texts -/

namespace Text

/-- A part with a separator behind it is the first one. -/
theorem partsBetween_append_cons {cut : Char → Bool} {part rest : List Char} {separator : Char}
    (hpart : ∀ c ∈ part, cut c = false) (hcut : cut separator = true) :
    partsBetween cut (part ++ separator :: rest) = part :: partsBetween cut rest := by
  induction part with
  | nil => rw [List.nil_append, partsBetween, if_pos hcut]
  | cons c part ih =>
    obtain ⟨hc, hpart⟩ := List.forall_mem_cons.mp hpart
    rw [List.cons_append, partsBetween, if_neg (by simp [hc]), ih hpart, consFirst]

/-- There is one part more than there are separators. -/
theorem length_partsBetween (cut : Char → Bool) (cs : List Char) :
    (partsBetween cut cs).length = cs.countP cut + 1 := by
  have hfirst : ∀ (c : Char) (parts : List (List Char)), parts ≠ [] →
      (consFirst c parts).length = parts.length := by
    intro c parts hne
    cases parts with
    | nil => exact absurd rfl hne
    | cons part rest => rfl
  induction cs with
  | nil => rfl
  | cons c rest ih =>
    unfold partsBetween
    by_cases hc : cut c = true
    · rw [if_pos hc, List.countP_cons_of_pos hc, List.length_cons, ih]
    · have hne : partsBetween cut rest ≠ [] := by
        rw [← List.length_pos_iff, ih]
        exact Nat.succ_pos _
      rw [if_neg hc, List.countP_cons_of_neg hc, hfirst c _ hne, ih]

/-- Texts with a separator behind each. -/
def ended (separator : Char) (texts : List String) : List Char :=
  texts.flatMap fun text => text.toList ++ [separator]

theorem ended_cons (separator : Char) (text : String) (texts : List String) :
    ended separator (text :: texts) = text.toList ++ separator :: ended separator texts := by
  rw [ended, List.flatMap_cons, List.append_assoc]
  rfl

/-- A character stands in one of the texts, or is the separator behind one. -/
theorem mem_ended {separator c : Char} {texts : List String} (h : c ∈ ended separator texts) :
    c = separator ∨ ∃ text ∈ texts, c ∈ text.toList := by
  obtain ⟨text, htext, hc⟩ := List.mem_flatMap.mp h
  rcases List.mem_append.mp hc with hc | hc
  · exact .inr ⟨text, htext, hc⟩
  · exact .inl (List.mem_singleton.mp hc)

/-- There is a separator behind each text, and the texts may hold more. -/
theorem count_ended (separator : Char) (texts : List String) :
    (ended separator texts).count separator = texts.length + (texts.flatMap String.toList).count separator := by
  induction texts with
  | nil => rfl
  | cons text texts ih =>
    rw [ended_cons, List.count_append, List.count_cons_self, ih, List.flatMap_cons, List.count_append,
      List.length_cons]
    omega

/-- **Texts with a separator behind each are cut into just these texts exactly if none holds a separator.** -/
theorem fields_ended_iff {separator : Char} {texts : List String} :
    fields separator (String.ofList (ended separator texts)) = texts ++ [""] ↔
      ∀ text ∈ texts, separator ∉ text.toList := by
  constructor
  · intro h text htext hmem
    -- each separator makes one field more, and there are fields enough for those behind the texts only
    have hlength := congrArg List.length h
    rw [fields, List.length_map, String.toList_ofList, length_partsBetween, ← List.count_eq_countP, count_ended,
      List.length_append, List.length_singleton] at hlength
    have hpos : 0 < (texts.flatMap String.toList).count separator :=
      List.count_pos_iff.mpr (List.mem_flatMap.mpr ⟨text, htext, hmem⟩)
    omega
  · intro h
    rw [fields, String.toList_ofList]
    induction texts with
    | nil => rfl
    | cons text texts ih =>
      obtain ⟨htext, htexts⟩ := List.forall_mem_cons.mp h
      have hkept : ∀ c ∈ text.toList, (c == separator) = false := by
        intro c hc
        refine beq_eq_false_iff_ne.mpr ?_
        rintro rfl
        exact htext hc
      rw [ended_cons, partsBetween_append_cons hkept (beq_self_eq_true separator), List.map_cons,
        String.ofList_toList, ih htexts, List.cons_append]

end Text

/-! ## The text of a table -/

/-- The text of a cell. -/
def cellText (cell : Option Bool) : String := (cell.map truthLetter).getD ""

/-- Cells with a bar before each and one at the end. -/
def barred (cells : List String) : String := String.ofList (ended '|' ("" :: cells))

/-- The line has just these cells between its outer bars. -/
def HasCells (line : String) (cells : List String) : Prop := fields '|' line = "" :: (cells ++ [""])

/-- Cells come back from between bars exactly if none holds a bar. -/
theorem hasCells_barred_iff {cells : List String} :
    HasCells (barred cells) cells ↔ ∀ cell ∈ cells, '|' ∉ cell.toList := by
  have hcut : HasCells (barred cells) cells ↔ ∀ cell ∈ "" :: cells, '|' ∉ cell.toList := fields_ended_iff
  rw [hcut, List.forall_mem_cons]
  exact and_iff_right (by decide)

/-- A truth value's cell and a separator's hold neither a bar nor a line feed. -/
theorem not_mem_cellText (cell : Option Bool) : '|' ∉ (cellText cell).toList ∧ '\n' ∉ (cellText cell).toList := by
  rcases cell with _ | _ | _ <;> decide

namespace Table

/-- Without styles a line is its cells between bars. -/
theorem toList_line (cells : List String) : (line cells).toList = (barred cells).toList ++ ['\n'] := by
  have hbars : (cells.map ("|" ++ ·)).flatMap String.toList ++ ['|'] = '|' :: ended '|' cells := by
    induction cells with
    | nil => rfl
    | cons cell cells ih =>
      rw [List.map_cons, List.flatMap_cons, List.append_assoc, ih, ended_cons, String.toList_append]
      rfl
  have hend : "|\n".toList = ['|'] ++ ['\n'] := rfl
  rw [line, String.toList_append, String.toList_join, hend, ← List.append_assoc, hbars, barred,
    String.toList_ofList, ended_cons]
  rfl

/-- Plain text shows no styles. -/
theorem highlight_plain {marks : List Bool} {cells : List String} (h : cells.length = marks.length) :
    highlight .plain marks cells = cells := by
  refine List.ext_getElem ?_ fun k _ _ => ?_
  · rw [highlight, List.length_zipWith, h, Nat.min_self]
  · simp only [highlight, List.getElem_zipWith, Medium.paint]

/-- The lines of the text: the headers, the ruler and the rows. -/
def lines (t : Table) : List String :=
  barred t.headers :: barred (t.columns.map fun _ => ":-:") :: t.rows.map fun row => barred (row.map cellText)

/-- **The text of a table is its lines**, with a line feed behind each. -/
theorem toList_render (t : Table) : (t.render .plain).toList = ended '\n' t.lines := by
  have hmarks : ((List.range t.columns.length).map t.isMain).length = t.columns.length := by
    rw [List.length_map, List.length_range]
  have hheaders : highlight .plain ((List.range t.columns.length).map t.isMain) t.headers = t.headers :=
    highlight_plain (by rw [hmarks, headers, List.length_map])
  have hrows : (t.rows.map fun row => line (highlight .plain ((List.range t.columns.length).map t.isMain)
      (row.map fun cell => (cell.map truthLetter).getD ""))).flatMap String.toList
        = ended '\n' (t.rows.map fun row => barred (row.map cellText)) := by
    rw [ended, List.flatMap_map, List.flatMap_map]
    refine List.flatMap_congr fun row hrow => ?_
    obtain ⟨r, _, rfl⟩ := List.mem_map.mp hrow
    rw [highlight_plain (by rw [List.length_map, List.length_map, hmarks]), toList_line]
    rfl
  rw [lines, ended_cons, ended_cons, ← hrows]
  simp only [render, String.toList_append, String.toList_join, hheaders, toList_line, List.append_assoc,
    List.cons_append, List.nil_append]

end Table

/-! ## Tables read back -/

/-- The cell of a column on a row: the letter of its value, or nothing in a separator. -/
def Column.IsCell (row : Nat) : Column → String → Prop
  | values _ cells, text => ∃ value, cells[row]? = some value ∧ text = truthLetter value
  | separator _ _, text => text = ""

/-- What the text of a cell says. -/
def readTruth (text : String) : Option Bool :=
  if text = truthLetter true then some true else if text = truthLetter false then some false else none

/-- The cells of a line between its outer bars. -/
def readCells (line : String) : List String := (fields '|' line).tail.dropLast

/-- The headers and the rows that a text shows: its first line, and its lines from the third on. -/
def readTable (text : String) : List String × List (List (Option Bool)) :=
  match fields '\n' text with
  | header :: _ :: body => (readCells header, body.dropLast.map fun line => (readCells line).map readTruth)
  | _ => ([], [])

theorem readTruth_cellText (cell : Option Bool) : readTruth (cellText cell) = cell := by
  rcases cell with _ | _ | _ <;> decide

theorem readCells_eq {line : String} {cells : List String} (h : HasCells line cells) : readCells line = cells := by
  rw [readCells, h, List.tail_cons, List.dropLast_concat]

namespace Table

/-- The header of some column has the character. -/
def HeaderHas (t : Table) (c : Char) : Prop := ∃ column ∈ t.columns, c ∈ column.header.toList

/-- The text of the table is a line for the headers, a ruler, and one line for each row, which has a cell for each
    column. -/
structure HasLines (t : Table) (header ruler : String) (body : List String) : Prop where
  fields_eq : fields '\n' (t.render .plain) = header :: ruler :: (body ++ [""])
  ruler : HasCells ruler (t.columns.map fun _ => ":-:")
  length_body : body.length = t.rowCount
  body : ∀ (row : Nat) (line : String), body[row]? = some line →
    ∃ cells, HasCells line cells ∧ List.Forall₂ (Column.IsCell row) t.columns cells

/-- The text of the table has its lines, with the headers as the cells of the first, and the headers and the rows
    can be read off it. -/
def ReadsBack (t : Table) : Prop :=
  ∃ header ruler body, t.HasLines header ruler body ∧ HasCells header t.headers ∧
    readTable (t.render .plain) = (t.headers, t.rows)

variable {t : Table} {height : Nat}

/-- The cells of a row come back from its line. -/
theorem hasCells_row (row : List (Option Bool)) : HasCells (barred (row.map cellText)) (row.map cellText) :=
  hasCells_barred_iff.mpr (List.forall_mem_map.mpr fun cell _ => (not_mem_cellText cell).1)

/-- The cells of a row are those of the columns. -/
theorem isCell_cellText (h : t.HasHeight height) {row : Nat} (hrow : row < t.rowCount) :
    List.Forall₂ (Column.IsCell row) t.columns ((t.columns.map (·.cell? row)).map cellText) := by
  rw [List.map_map, List.forall₂_map_right_iff, List.forall₂_same]
  intro column hcolumn
  rw [h.rowCount] at hrow
  cases column with
  | values header cells =>
    have hsize : cells.size = height := h.2 _ hcolumn
    have hcell : cells[row]? = some cells[row] := Array.getElem?_eq_getElem (by omega)
    refine ⟨cells[row], hcell, ?_⟩
    simp only [Function.comp, Column.cell?, hcell, cellText, Option.map_some, Option.getD_some]
  | separator header n => rfl

/-- Where no header has a line feed, the lines are those that were written. -/
theorem fields_render (h : ¬t.HeaderHas '\n') : fields '\n' (t.render .plain) = t.lines ++ [""] := by
  have hbarred : ∀ {cells : List String}, (∀ cell ∈ cells, '\n' ∉ cell.toList) → '\n' ∉ (barred cells).toList := by
    intro cells hcells hmem
    rw [barred, String.toList_ofList] at hmem
    rcases mem_ended hmem with hbar | ⟨cell, hcell, hmem⟩
    · exact absurd hbar (by decide)
    · rcases List.mem_cons.mp hcell with rfl | hcell
      · exact absurd hmem (by decide)
      · exact hcells cell hcell hmem
  have hlines : ∀ line ∈ t.lines, '\n' ∉ line.toList := by
    refine List.forall_mem_cons.mpr ⟨hbarred ?_, List.forall_mem_cons.mpr ⟨hbarred ?_, ?_⟩⟩
    · intro header hheader
      obtain ⟨column, hcolumn, rfl⟩ := List.mem_map.mp hheader
      exact fun hmem => h ⟨column, hcolumn, hmem⟩
    · refine List.forall_mem_map.mpr fun column _ => ?_
      decide
    · refine List.forall_mem_map.mpr fun row _ => hbarred ?_
      exact List.forall_mem_map.mpr fun cell _ => (not_mem_cellText cell).2
  rw [← fields_ended_iff.mpr hlines, ← toList_render, String.ofList_toList]

/-- **The lines of a table are as many as they should be**, and those of its rows have a cell for each column. -/
theorem hasLines (hheight : t.HasHeight height) (h : ¬t.HeaderHas '\n') :
    t.HasLines (barred t.headers) (barred (t.columns.map fun _ => ":-:"))
      (t.rows.map fun row => barred (row.map cellText)) := by
  refine ⟨fields_render h, ?_, ?_, ?_⟩
  · refine hasCells_barred_iff.mpr (List.forall_mem_map.mpr fun column _ => ?_)
    decide
  · rw [List.length_map, rows, List.length_map, List.length_range]
  · intro row line hline
    rw [List.getElem?_map, Option.map_eq_some_iff] at hline
    obtain ⟨cells, hcells, rfl⟩ := hline
    rw [rows, List.getElem?_map, Option.map_eq_some_iff] at hcells
    obtain ⟨r, hr, rfl⟩ := hcells
    obtain ⟨hrow, rfl⟩ := List.getElem?_eq_some_iff.mp hr
    rw [List.length_range] at hrow
    refine ⟨_, hasCells_row _, ?_⟩
    rw [List.getElem_range]
    exact isCell_cellText hheight hrow

/-- The rows come back, and so do the headers if their line has them as its cells. -/
theorem readTable_render (h : ¬t.HeaderHas '\n') (hheaders : HasCells (barred t.headers) t.headers) :
    readTable (t.render .plain) = (t.headers, t.rows) := by
  have hrows : (t.rows.map fun row => barred (row.map cellText)).map (fun line => (readCells line).map readTruth)
      = t.rows := by
    rw [List.map_map]
    conv_rhs => rw [← List.map_id t.rows]
    refine List.map_congr_left fun row _ => ?_
    rw [Function.comp, readCells_eq (hasCells_row row), List.map_map]
    conv_rhs => rw [id, ← List.map_id row]
    exact List.map_congr_left fun cell _ => readTruth_cellText cell
  rw [readTable, fields_render h]
  show (readCells (barred t.headers),
    ((t.rows.map fun row => barred (row.map cellText)) ++ [""]).dropLast.map _) = _
  rw [readCells_eq hheaders, List.dropLast_concat, hrows]

/-- **A table reads back exactly if no header has a bar.** -/
theorem readsBack_iff (hheight : t.HasHeight height) (h : ¬t.HeaderHas '\n') :
    t.ReadsBack ↔ ¬t.HeaderHas '|' := by
  have hheaders : HasCells (barred t.headers) t.headers ↔ ¬t.HeaderHas '|' := by
    rw [hasCells_barred_iff, headers, List.forall_mem_map, HeaderHas]
    simp only [not_exists, not_and]
  constructor
  · rintro ⟨header, ruler, body, hlines, hcells, -⟩
    -- the first line is the one that was written
    have hfirst := hlines.fields_eq.symm.trans (fields_render h)
    obtain rfl : header = barred t.headers := (List.cons.inj hfirst).1
    exact hheaders.mp hcells
  · intro hbar
    have hcells := hheaders.mpr hbar
    exact ⟨_, _, _, hasLines hheight h, hcells, readTable_render h hcells⟩

end Table

/-! ## The characters of headers -/

/-- The headers of tables side by side have the characters that those of one of them have. -/
theorem Table.headerHas_join {isArgument : Bool} {height : Nat} {tables : List Table} {c : Char} (hc : c ≠ '/') :
    (join isArgument height tables).HeaderHas c ↔ ∃ t ∈ tables, t.HeaderHas c := by
  fun_induction join isArgument height tables with
  | case1 => simp [HeaderHas]
  | case2 last => simp
  | case3 t rest hrest header ih =>
    have hseparator : c ∉ header.toList := by
      unfold header
      split <;> simp [hc]
    rw [List.exists_mem_cons_iff, ← ih]
    constructor
    · rintro ⟨column, hcolumn, hmem⟩
      rcases List.mem_append.mp hcolumn with hcolumn | hcolumn
      · exact .inl ⟨column, hcolumn, hmem⟩
      · rcases List.mem_cons.mp hcolumn with rfl | hcolumn
        · exact absurd hmem hseparator
        · exact .inr ⟨column, hcolumn, hmem⟩
    · rintro (⟨column, hcolumn, hmem⟩ | ⟨column, hcolumn, hmem⟩)
      · exact ⟨column, List.mem_append_left _ hcolumn, hmem⟩
      · exact ⟨column, List.mem_append_right _ (List.mem_cons_of_mem _ hcolumn), hmem⟩

/-- Where the same view of each sentence has a character of its source, these views side by side have one of some
    source. -/
theorem headerHas_join_views {isArgument : Bool} {height : Nat} {sources : List String}
    {views : List (Table × Table)} {view : Table × Table → Table} {c : Char} (hc : c ≠ '/')
    (h : List.Forall₂ (fun source v => (view v).HeaderHas c ↔ c ∈ source.toList ∧ isBlank c = false) sources
      views) :
    (Table.join isArgument height (views.map view)).HeaderHas c ↔
      ∃ source ∈ sources, c ∈ source.toList ∧ isBlank c = false := by
  rw [Table.headerHas_join hc]
  constructor
  · rintro ⟨u, hu, hhas⟩
    obtain ⟨v, hv, rfl⟩ := List.mem_map.mp hu
    obtain ⟨source, hsource, hiff⟩ := exists_of_mem_right h hv
    exact ⟨source, hsource, hiff.mp hhas⟩
  · rintro ⟨source, hsource, hhas⟩
    obtain ⟨v, hv, hiff⟩ := exists_of_mem_left h hsource
    exact ⟨view v, List.mem_map_of_mem hv, hiff.mpr hhas⟩

/-- What is left of a text without the characters of a class. -/
theorem mem_toList_without {cut : Char → Bool} {text : String} {c : Char} :
    c ∈ (without cut text).toList ↔ c ∈ text.toList ∧ cut c = false := by
  rw [without, String.toList_ofList, List.mem_filter, Bool.not_eq_true']

/-- Headers that spell out a source have the characters of the source, but for blanks. -/
theorem Spells.headerHas_iff {source : String} {t : Table} (h : Spells source t.columns) (c : Char) :
    t.HeaderHas c ↔ c ∈ source.toList ∧ isBlank c = false := by
  rw [← mem_toList_without, ← h, String.toList_join, List.mem_flatMap, Table.HeaderHas]
  simp only [List.mem_map, exists_exists_and_eq_and]

/-- **The headers of either view have the characters of the source**, but for blanks and letters. -/
theorem AreViews.headerHas_iff {constants : Assignment (Array Bool)} {height : Nat} {source : String}
    {t : Sentence} {views : Table × Table} (hare : AreViews constants height t views)
    (h : Sentence.parse source = .ok t) (hconstants : ∀ p ∈ constants.pairs, p.1.Writable) {c : Char}
    (hletter : isAlphabetic c = false) (hspace : c ≠ ' ') :
    (views.1.HeaderHas c ↔ c ∈ source.toList ∧ isBlank c = false) ∧
      (views.2.HeaderHas c ↔ c ∈ source.toList ∧ isBlank c = false) := by
  obtain ⟨hspells, result, hlast, hresult⟩ := hare.spell h
  refine ⟨hspells.headerHas_iff c, ?_⟩
  obtain ⟨b, -, rfl⟩ := hare
  obtain rfl : Column.values t.text b.main = result := by simpa [Block.simple] using hlast
  have htext : c ∈ t.text.toList ↔ c ∈ source.toList ∧ isBlank c = false := by
    rw [← mem_toList_without, ← hresult, mem_toList_without, Column.header, and_iff_left]
    exact beq_eq_false_iff_ne.mpr hspace
  rw [← htext]
  constructor
  · rintro ⟨column, hcolumn, hmem⟩
    rcases List.mem_append.mp hcolumn with hcolumn | hcolumn
    · -- a constant column is headed by the name of a symbol, which is made of letters
      obtain ⟨p, hp, rfl⟩ := List.mem_map.mp hcolumn
      rw [(hconstants p hp).2 c hmem] at hletter
      exact absurd hletter (by simp)
    · obtain rfl := List.mem_singleton.mp hcolumn
      exact hmem
  · intro hmem
    exact ⟨_, List.mem_append_right _ (List.mem_singleton_self _), hmem⟩

/-! ## Every table -/

/-- The text of a table of sentences that were read from sources. -/
structure Table.WrittenFrom (t : Table) (sources : List String) : Prop where
  /-- It has its lines, and those of the rows have a cell for each column. -/
  lines : ∃ header ruler body, t.HasLines header ruler body
  /-- The table is read back from it unless a source has a bar. -/
  readsBack_iff : t.ReadsBack ↔ ∀ source ∈ sources, '|' ∉ source.toList

/-- A table whose headers have the characters of sources, but for blanks. -/
theorem Table.writtenFrom {t : Table} {height : Nat} {sources : List String} (hheight : t.HasHeight height)
    (h : ∀ c, isAlphabetic c = false → c ≠ ' ' → c ≠ '/' →
      (t.HeaderHas c ↔ ∃ source ∈ sources, c ∈ source.toList ∧ isBlank c = false)) :
    t.WrittenFrom sources := by
  have hfeed : ¬t.HeaderHas '\n' := by
    rw [h '\n' (by decide) (by decide) (by decide)]
    rintro ⟨_, _, _, hblank⟩
    exact absurd hblank (by decide)
  have hbar : isBlank '|' = false := by decide
  refine ⟨⟨_, _, _, hasLines hheight hfeed⟩, ?_⟩
  rw [readsBack_iff hheight hfeed, h '|' (by decide) (by decide) (by decide)]
  simp only [hbar, and_true, not_exists, not_and]

/-- The symbols of sentences that were read can be written. -/
theorem writable_of_mem_symbolsOf {sources : List String} {sentences : List Sentence}
    (h : List.Forall₂ (fun source t => Sentence.parse source = .ok t) sources sentences) {s : Symbol}
    (hs : s ∈ symbolsOf sentences) : s.Writable := by
  obtain ⟨t, ht, hs⟩ := mem_symbolsOf.mp hs
  obtain ⟨source, _, hsource⟩ := exists_of_mem_right h ht
  exact (Sentence.written_of_parse hsource).1.writable s hs

/-- Within the limit, both views of a joint table are written from the sources. -/
theorem jointTable_writtenFrom {limit : Limit} (isArgument : Bool) {sources : List String}
    {sentences : List Sentence}
    (h : List.Forall₂ (fun source t => Sentence.parse source = .ok t) sources sentences)
    (hne : sentences ≠ []) (hlimit : (symbolsOf sentences).length ≤ limit.enforced) :
    ∃ joint, jointTable limit isArgument sentences = .ok joint ∧ joint.detailed.WrittenFrom sources ∧
      joint.simple.WrittenFrom sources := by
  obtain ⟨views, hviews, htable⟩ := jointTable_views isArgument hne hlimit
  obtain ⟨joint, hjoint, hshow⟩ := jointTable_shows isArgument hne hlimit
  obtain rfl := Except.ok.inj (htable.symm.trans hjoint)
  have hconstants : ∀ p ∈ (constantColumns (symbolsOf sentences)).pairs, p.1.Writable := by
    intro p hp
    have hnodup : (symbolsOf sentences).Nodup := nodup_distinct _
    rw [pairs_constantColumns hnodup] at hp
    obtain ⟨⟨s, i⟩, hmem, rfl⟩ := List.mem_map.mp hp
    exact writable_of_mem_symbolsOf h (List.fst_mem_of_mem_zipIdx hmem)
  have hviews : ∀ c, isAlphabetic c = false → c ≠ ' ' → List.Forall₂ (fun source (v : Table × Table) =>
      (v.1.HeaderHas c ↔ c ∈ source.toList ∧ isBlank c = false) ∧
        (v.2.HeaderHas c ↔ c ∈ source.toList ∧ isBlank c = false)) sources views := by
    intro c hletter hspace
    refine forall₂_trans (fun source t v hsource hv => ?_) h hviews
    exact hv.2.headerHas_iff hsource hconstants hletter hspace
  refine ⟨_, hjoint, ?_, ?_⟩
  · refine Table.writtenFrom hshow.height_detailed fun c hletter hspace hslash => ?_
    exact headerHas_join_views hslash ((hviews c hletter hspace).imp fun source v hv => hv.1)
  · refine Table.writtenFrom hshow.height_simple fun c hletter hspace hslash => ?_
    exact headerHas_join_views hslash ((hviews c hletter hspace).imp fun source v hv => hv.2)

/-- Within the limit, both views of the table of a sentence are written from the source. -/
theorem table_writtenFrom {limit : Limit} {source : String} {t : Sentence} (h : Sentence.parse source = .ok t)
    (hlimit : t.symbols.length ≤ limit.enforced) :
    ∃ views, t.table limit = .ok views ∧ views.detailed.WrittenFrom [source] ∧
      views.simple.WrittenFrom [source] := by
  rw [← symbolsOf_singleton] at hlimit
  rw [← jointTable_singleton limit false t]
  exact jointTable_writtenFrom false (.cons h .nil) (List.cons_ne_nil t []) hlimit

/-- **A rendered table reads back unless a source has a bar.** Within the limit, the text of either view of a table
    has its lines, of which those of the rows read back; and that of the headers reads back exactly if no source
    has a bar in it. So it is with the table of one sentence and with that of several. -/
theorem Sentence.tables_readBack {limit : Limit} :
    (∀ source t, parse source = .ok t → t.symbols.length ≤ limit.enforced →
      ∃ views, t.table limit = .ok views ∧ views.detailed.WrittenFrom [source] ∧
        views.simple.WrittenFrom [source]) ∧
    ∀ isArgument sources sentences, List.Forall₂ (fun source t => parse source = .ok t) sources sentences →
      sentences ≠ [] → (symbolsOf sentences).length ≤ limit.enforced →
      ∃ joint, jointTable limit isArgument sentences = .ok joint ∧ joint.detailed.WrittenFrom sources ∧
        joint.simple.WrittenFrom sources := by
  constructor
  · intro source t h hlimit
    exact table_writtenFrom h hlimit
  · intro isArgument sources sentences h hne hlimit
    exact jointTable_writtenFrom isArgument h hne hlimit

/-- Every spelling but the one with bars, in an argument of two sentences: both of its views read back. -/
theorem Sentence.tables_readBack_spellings :
    ∃ t u, parse "[A && B) \\/ ¬C" = .ok t ∧ parse "(A v B) = ~(B > C)" = .ok u ∧
      (∃ views, t.table {} = .ok views ∧ views.detailed.ReadsBack ∧ views.simple.ReadsBack) ∧
      ∃ joint, jointTable {} true [t, u] = .ok joint ∧ joint.detailed.ReadsBack ∧ joint.simple.ReadsBack := by
  obtain ⟨t, u, ht, hu, hlimit, hjoint⟩ : ∃ t u, parse "[A && B) \\/ ¬C" = .ok t ∧
      parse "(A v B) = ~(B > C)" = .ok u ∧ t.symbols.length ≤ Limit.enforced {} ∧
      (symbolsOf [t, u]).length ≤ Limit.enforced {} :=
    ⟨.binary .disjunction "\\/" (.group '[' (.binary .conjunction "&&" (.symbol ⟨"A"⟩) (.symbol ⟨"B"⟩)) ')')
        (.negation "¬" (.symbol ⟨"C"⟩)),
      .binary .biconditional "=" (.group '(' (.binary .disjunction "v" (.symbol ⟨"A"⟩) (.symbol ⟨"B"⟩)) ')')
        (.negation "~" (.group '(' (.binary .conditional ">" (.symbol ⟨"B"⟩) (.symbol ⟨"C"⟩)) ')')),
      by decide +kernel, by decide +kernel, by decide, by decide⟩
  obtain ⟨hone, hseveral⟩ := @tables_readBack {}
  obtain ⟨views, hviews, hdetailed, hsimple⟩ := hone _ t ht hlimit
  obtain ⟨joint, htable, hdetailed', hsimple'⟩ :=
    hseveral true _ [t, u] (.cons ht (.cons hu .nil)) (List.cons_ne_nil t [u]) hjoint
  exact ⟨t, u, ht, hu,
    ⟨views, hviews, hdetailed.readsBack_iff.mpr (by decide), hsimple.readsBack_iff.mpr (by decide)⟩,
    joint, htable, hdetailed'.readsBack_iff.mpr (by decide), hsimple'.readsBack_iff.mpr (by decide)⟩

/-- The table of `A || B` does not read back: its line of headers has more cells than there are columns. -/
theorem not_readsBack_bars :
    ∃ t views, Sentence.parse "A || B" = .ok t ∧ t.table {} = .ok views ∧
      views.detailed.headers = ["A", "||", "B"] ∧ views.simple.headers = ["A", "B", "A || B"] ∧
      (fields '\n' (views.detailed.render .plain)).head? = some "|A||||B|" ∧
      (fields '\n' (views.simple.render .plain)).head? = some "|A|B|A || B|" ∧
      ¬views.detailed.ReadsBack ∧ ¬views.simple.ReadsBack := by
  obtain ⟨t, ht, hlimit, htexts⟩ : ∃ t, Sentence.parse "A || B" = .ok t ∧ t.symbols.length ≤ Limit.enforced {} ∧
      (t.table {}).toOption.map (fun views => (views.detailed.headers, views.simple.headers,
          (fields '\n' (views.detailed.render .plain)).head?, (fields '\n' (views.simple.render .plain)).head?))
        = some (["A", "||", "B"], ["A", "B", "A || B"], some "|A||||B|", some "|A|B|A || B|") :=
    ⟨.binary .disjunction "||" (.symbol ⟨"A"⟩) (.symbol ⟨"B"⟩), by decide +kernel, by decide, by decide +kernel⟩
  obtain ⟨views, hviews, hdetailed, hsimple⟩ := table_writtenFrom ht hlimit
  rw [hviews] at htexts
  simp only [Except.toOption, Option.map_some, Option.some.injEq, Prod.mk.injEq] at htexts
  obtain ⟨hheaders, hheaders', hline, hline'⟩ := htexts
  refine ⟨t, views, ht, hviews, hheaders, hheaders', hline, hline', ?_, ?_⟩
  · rw [hdetailed.readsBack_iff]
    decide
  · rw [hsimple.readsBack_iff]
    decide

end Sentential
