import Sentential.Style
import Sentential.Table.Basic

/-!
# `Sentential.Table.Render` — a table as Markdown

A table is written as a Markdown table: a line of headers, a line that centres every column, and a line for
each row. Every cell stands behind a bar, and a bar ends the line. A truth value is `T` or `F`, a
separator's cell is empty, and the main columns are blue and bold, headers included.
-/

namespace Sentential

/-- The letter of a truth value. -/
def truthLetter (value : Bool) : String := if value then "T" else "F"

namespace Table

/-- The style of main columns. -/
def mainStyle : Style := (Style.coloured .blue).inBold

/-- A line of cells: a bar before each and one at the end. -/
def line (cells : List String) : String :=
  String.join (cells.map ("|" ++ ·)) ++ "|\n"

/-- Each text in the style of the column at its place. -/
def highlight (medium : Medium) (marks : List Bool) (cells : List String) : List String :=
  List.zipWith (fun isMain cell => medium.paint (if isMain then mainStyle else Style.plain) cell) marks cells

/-- The table as Markdown. -/
def render (medium : Medium) (t : Table) : String :=
  let marks := (List.range t.columns.length).map t.isMain
  line (highlight medium marks t.headers) ++
    line (t.columns.map fun _ => ":-:") ++
    String.join (t.rows.map fun row =>
      line (highlight medium marks (row.map fun cell => (cell.map truthLetter).getD "")))

end Table

end Sentential
