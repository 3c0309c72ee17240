/-!
# `Sentential.Table.Basic` — tables of truth values

A table is a sequence of columns with some of them marked as **main**: one per sentence that the table is
about. A column holds truth values or is a blank separator between sentences. The number of rows is the
height of the first column.

## Contents
* `Column` — a column with its header
* `Table` — columns and the places of the main ones
* `Table.rows`, `Table.headers` — the table read across
* `Table.mainColumns` — the values of the main columns
-/

namespace Sentential

/-- A column of a table. -/
inductive Column where
  | values (header : String) (cells : Array Bool)
  /-- A blank column between the sentences of a joint table. -/
  | separator (header : String) (height : Nat)
  deriving DecidableEq

namespace Column

/-- The text above the column. -/
def header : Column → String
  | values h _ => h
  | separator h _ => h

/-- The number of cells. -/
def height : Column → Nat
  | values _ cells => cells.size
  | separator _ n => n

/-- The truth values, unless the column is a separator. -/
def cells? : Column → Option (Array Bool)
  | values _ cells => some cells
  | separator _ _ => none

/-- The value on a row, if there is one. -/
def cell? : Column → Nat → Option Bool
  | values _ cells, row => cells[row]?
  | separator _ _, _ => none

/-- The column is blank. -/
def isSeparator : Column → Bool
  | values _ _ => false
  | separator _ _ => true

end Column

/-- Columns, and the places of the main ones. -/
structure Table where
  columns : List Column
  mains : List Nat
  deriving DecidableEq

namespace Table

/-- The number of rows. -/
def rowCount (t : Table) : Nat :=
  match t.columns with
  | [] => 0
  | first :: _ => first.height

/-- The texts above the columns. -/
def headers (t : Table) : List String := t.columns.map Column.header

/-- The cells from row to row; a separator's cells hold nothing. -/
def rows (t : Table) : List (List (Option Bool)) :=
  (List.range t.rowCount).map fun row => t.columns.map (·.cell? row)

/-- The values of the column at a place; none if there is no such column or it is a separator. -/
def cellsAt (t : Table) (place : Nat) : Array Bool :=
  (t.columns[place]?.bind Column.cells?).getD #[]

/-- The values of the main columns. -/
def mainColumns (t : Table) : List (Array Bool) := t.mains.map t.cellsAt

/-- The column at a place is a main one. -/
def isMain (t : Table) (place : Nat) : Bool := t.mains.contains place

end Table

end Sentential
