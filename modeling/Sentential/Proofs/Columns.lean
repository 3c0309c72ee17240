import Sentential.Proofs.Meaning
import Sentential.Proofs.Nodes

/-!
# `Sentential.Proofs.Columns` — columns hold values of statements

A sentence is evaluated column by column, a statement valuation by valuation. A row of the constant columns
is a valuation (`rowValuation`), and the column of each node of a sentence lists the values of what the node
states under the valuations of all rows (`evaluate_tabulates`). Nothing but the height of the constant columns
matters to this; which valuation a row stands for does not.

## Contents
* `Assignment.pairs_ofList`, `Assignment.get?_ofList_of_mem` — an assignment made of a list of pairs
* `rowValuation`, `Statement.column` — a row as a valuation, the values of a statement on all rows
* `Covers` — constant columns of one height for every symbol of a statement
* `Block.Tabulates`, `evaluate_tabulates` — the columns of a sentence
-/

namespace Sentential

/-! ## Assignments made of pairs -/

namespace Assignment

variable {ν : Type}

theorem pairs_foldl_insert {pairs : List (Symbol × ν)} {a : Assignment ν}
    (h : ((a.pairs ++ pairs).map Prod.fst).Nodup) :
    (pairs.foldl (fun a p => a.insert p.1 p.2) a).pairs = a.pairs ++ pairs := by
  induction pairs generalizing a with
  | nil => exact (List.append_nil _).symm
  | cons p rest ih =>
    -- the symbol inserted next is none of those inserted so far
    have hnew : p.1 ∉ a.pairs.map Prod.fst := by
      rw [List.map_append, List.map_cons, List.nodup_append] at h
      exact fun hmem => h.2.2 p.1 hmem p.1 List.mem_cons_self rfl
    have hput : (a.insert p.1 p.2).pairs = a.pairs ++ [p] := put_of_not_mem hnew
    have hnext : (a.insert p.1 p.2).pairs ++ rest = a.pairs ++ p :: rest := by
      rw [hput, List.append_assoc, List.singleton_append]
    rw [List.foldl_cons, ih (by rwa [hnext]), hnext]

/-- Pairs of different symbols are kept as they are. -/
theorem pairs_ofList {pairs : List (Symbol × ν)} (h : (pairs.map Prod.fst).Nodup) :
    (ofList pairs).pairs = pairs :=
  pairs_foldl_insert h

/-- A symbol that is paired with a value has it. -/
theorem get?_ofList_of_mem {pairs : List (Symbol × ν)} (h : (pairs.map Prod.fst).Nodup) {s : Symbol} {v : ν}
    (hmem : (s, v) ∈ pairs) : (ofList pairs).get? s = some v := by
  rw [get?_eq_some_iff, pairs_ofList h]
  exact hmem

end Assignment

/-! ## Rows as valuations -/

variable {constants : Assignment (Array Bool)} {height : Nat}

/-- The values of symbols on a row of constant columns; false where there is none. -/
def rowValuation (constants : Assignment (Array Bool)) (row : Nat) (s : Symbol) : Bool :=
  ((constants.get? s).bind (·[row]?)).getD false

/-- The values of a statement on all rows. -/
def Statement.column (constants : Assignment (Array Bool)) (height : Nat) (f : Statement) : Array Bool :=
  (Array.range height).map fun row => f.eval (rowValuation constants row)

theorem Statement.size_column (constants : Assignment (Array Bool)) (height : Nat) (f : Statement) :
    (Statement.column constants height f).size = height := by
  rw [Statement.column, Array.size_map, Array.size_range]

theorem Statement.getElem?_column (f : Statement) {row : Nat} (hrow : row < height) :
    (Statement.column constants height f)[row]? = some (f.eval (rowValuation constants row)) := by
  simp only [Statement.column, Array.getElem?_map, Array.getElem?_range, hrow, if_true, Option.map_some]

/-- Every symbol of the statement has a constant column of the height. -/
def Covers (constants : Assignment (Array Bool)) (height : Nat) (f : Statement) : Prop :=
  ∀ s ∈ f.leaves, ∃ cells, constants.get? s = some cells ∧ cells.size = height

/-- Equivalent statements have the same column. -/
theorem column_congr {f g : Statement} (h : Statement.Equivalent f g) :
    Statement.column constants height f = Statement.column constants height g := by
  unfold Statement.column
  congr 1
  funext row
  exact h _

/-- The column of a symbol is its constant column. -/
theorem column_atom {s : Symbol} {cells : Array Bool} (hcells : constants.get? s = some cells)
    (hsize : cells.size = height) : Statement.column constants height (.atom s) = cells := by
  refine Array.ext (by simp [Statement.column, hsize]) fun row _ hrow => ?_
  simp [Statement.column, Formula.eval, rowValuation, hcells, hrow]

theorem column_negation (f : Statement) :
    Statement.column constants height (.negation f)
      = (Statement.column constants height f).map (!·) := by
  simp only [Statement.column, Array.map_map]
  rfl

theorem column_binary (c : Connective) (f g : Statement) :
    Statement.column constants height (.binary c f g)
      = Array.zipWith c.apply (Statement.column constants height f)
          (Statement.column constants height g) := by
  refine Array.ext (by simp [Statement.column]) fun row _ _ => ?_
  simp [Statement.column, Formula.eval]

/-! ## The columns of a sentence -/

/-- The columns of a sentence are those of its nodes, in writing order, and the main one is in the place of
    the root. -/
structure Block.Tabulates (b : Block) (constants : Assignment (Array Bool)) (height : Nat) (t : Sentence) :
    Prop where
  columns : b.columns = t.nodes.map fun u => Statement.column constants height u.statement
  main : b.main = Statement.column constants height t.statement
  place : b.before.length = t.nodes.idxOf t.root

/-- There is one header for each column. -/
theorem Block.Tabulates.length_columns {b : Block} {t : Sentence} (h : b.Tabulates constants height t) :
    b.columns.length = t.headers.length := by
  rw [h.columns, List.length_map, t.length_headers]

/-- **Each node of a sentence has the column of what it states.** -/
theorem evaluate_tabulates {t : Sentence} (h : Covers constants height t.statement) :
    ∃ b, t.evaluate constants = .ok b ∧ b.Tabulates constants height t := by
  induction t with
  | symbol s =>
    obtain ⟨cells, hcells, hsize⟩ := h s (by simp [Sentence.statement, Formula.leaves])
    have hcolumn := column_atom hcells hsize
    refine ⟨⟨[], cells, []⟩, by simp only [Sentence.evaluate, hcells], ?_, hcolumn.symm, ?_⟩
    · show [cells] = [Statement.column constants height (.atom s)]
      rw [hcolumn]
    · rw [Sentence.nodes, Sentence.root, List.idxOf_cons_self]
      rfl
  | negation g t ih =>
    obtain ⟨b, hb, ht⟩ := ih h
    have hmain : b.main.map (!·) = Statement.column constants height (.negation t.statement) := by
      rw [column_negation, ht.main]
    refine ⟨⟨[], b.main.map (!·), b.columns⟩, by simp only [Sentence.evaluate, hb], ?_, hmain, ?_⟩
    · show b.main.map (!·) :: b.columns = _
      rw [hmain, ht.columns]
      rfl
    · rw [Sentence.nodes, Sentence.root, List.idxOf_cons_self]
      rfl
  | binary c g l r ihl ihr =>
    obtain ⟨a, ha, hl⟩ := ihl fun s hs => h s (List.mem_append_left _ hs)
    obtain ⟨b, hb, hr⟩ := ihr fun s hs => h s (List.mem_append_right _ hs)
    have hmain : Array.zipWith c.apply a.main b.main
        = Statement.column constants height (.binary c l.statement r.statement) := by
      rw [column_binary, hl.main, hr.main]
    refine ⟨⟨a.columns, Array.zipWith c.apply a.main b.main, b.columns⟩, ?_, ?_, hmain, ?_⟩
    · simp only [Sentence.evaluate, ha, hb]
    · show a.columns ++ Array.zipWith c.apply a.main b.main :: b.columns = _
      rw [hmain, hl.columns, hr.columns, Sentence.nodes, List.map_append, List.map_cons]
      rfl
    · -- the columns of the left operand are as many as its nodes, and stand before the main one
      show a.columns.length = _
      rw [Sentence.root, Sentence.idxOf_binary, hl.columns, List.length_map]
  | group o t c ih =>
    obtain ⟨b, hb, ht⟩ := ih h
    exact ⟨b, hb, ht.columns, ht.main, ht.place⟩

end Sentential
