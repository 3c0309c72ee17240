import Sentential.Table.Basic

/-!
# `Sentential.Verdict` — what a table shows

The table of one sentence shows its **kind**; a joint table shows how its sentences are **related**, and if
the last one is a conclusion, whether the argument is **valid**. A verdict reads the main columns only.

## Contents
* `Kind`, `Kind.ofValues`, `Table.kind` — tautology, contradiction or contingency
* `Relation`, `Comparison`, `Table.comparison` — equivalence, contradiction, consistency
* `Validity`, `Table.validity` — the rows that refute an argument
-/

namespace Sentential

/-! ## One sentence -/

/-- What a column of values shows of a sentence. -/
inductive Kind where
  /-- True on every row. -/
  | tautology
  /-- False on every row, and there is a row. -/
  | contradiction
  | contingency
  deriving DecidableEq

namespace Kind

/-- The kind of a column. -/
def ofValues (values : Array Bool) : Kind :=
  if values.all (· == true) then tautology
  else if values.all (· == false) then contradiction
  else contingency

/-- The kind's name. -/
def name : Kind → String
  | tautology => "Tautology"
  | contradiction => "Contradiction"
  | contingency => "Contingency"

end Kind

/-- The kind of the sentence that a table is about. -/
def Table.kind (t : Table) : Kind := Kind.ofValues (t.mainColumns.headD #[])

/-! ## Several sentences -/

/-- How sentences are related. -/
inductive Relation where
  /-- The same value on every row. -/
  | equivalent
  /-- Opposite values on every row; of two sentences only. -/
  | contradictory
  | neither
  deriving DecidableEq

/-- The relation's name. -/
def Relation.name : Relation → String
  | equivalent => "Equivalent"
  | contradictory => "Contradictory"
  | neither => "Neither"

/-- A comparison of sentences. -/
structure Comparison where
  relation : Relation
  /-- Some row makes every sentence true. -/
  consistent : Bool
  deriving DecidableEq

/-- The values of columns on a row. -/
def valuesOn (columns : List (Array Bool)) (row : Nat) : List Bool :=
  columns.map (·.getD row false)

/-- All values are the same. -/
def allEqual : List Bool → Bool
  | [] => true
  | first :: rest => rest.all (· == first)

/-- There are two values and they differ. -/
def areOpposite : List Bool → Bool
  | [p, q] => p != q
  | _ => false

/-- The comparison of the sentences that a joint table is about. -/
def Table.comparison (t : Table) : Comparison :=
  let rows := (List.range t.rowCount).map (valuesOn t.mainColumns)
  { relation :=
      if rows.all allEqual then .equivalent
      else if rows.all areOpposite then .contradictory
      else .neither
    consistent := rows.any (·.all (· == true)) }

/-! ## Arguments -/

/-- A judgement on an argument: the rows where every premise is true and the conclusion false. -/
structure Validity where
  counterexamples : List Nat
  deriving DecidableEq

/-- No row refutes the argument. -/
def Validity.valid (v : Validity) : Bool := v.counterexamples.isEmpty

/-- The values on a row refute the argument whose conclusion is the last. -/
def refutes : List Bool → Bool
  | [] => false
  | [conclusion] => !conclusion
  | premise :: rest => premise && refutes rest

/-- The judgement on the argument that a joint table is about. -/
def Table.validity (t : Table) : Validity :=
  let columns := t.mainColumns
  ⟨(List.range t.rowCount).filter fun row => refutes (valuesOn columns row)⟩

end Sentential
