import Mathlib.Data.Nat.Bitwise
import Sentential.Proofs.Columns

/-!
# `Sentential.Proofs.Rows` — a row as an interpretation

What a row of a table gives to a symbol is computed twice. A constant column divides the number of the row by
the length of its runs, and the interpretation of the row shifts the number and masks it. Both read one binary
digit of the row (`placeValue`), so the valuation of a row is that of its interpretation (`rowValuation_eq`)
and gives every statement the value that the interpretation gives it (`evaluate_forRow`).

Digits can be chosen freely, so that some row gives the symbols any values whatever (`exists_row`): what holds
on all rows holds under all interpretations.

## Contents
* `placeValue` — the digit that a symbol's value is read from
* `get?_forRow`, `getElem?_constantCells` — both computations read it
* `pairs_constantColumns`, `covers_constantColumns` — the constant columns of different symbols
* `rowValuation_eq`, `evaluate_forRow` — columns and interpretations agree
* `rowOf`, `exists_row`, `exists_row_eval`, `exists_interpretation` — every valuation is that of a row
-/

namespace Sentential

/-! ## Binary digits -/

/-- There are two rows for each row over one symbol less. -/
theorem rowTotal_eq (n : Nat) : rowTotal n = 2 ^ n := Nat.one_shiftLeft n

/-- The value that a row gives to the symbol at place `i` of `n`: a zero digit of the row is true, and the
    first symbol has the most significant digit. -/
def placeValue (n i row : Nat) : Bool := !row.testBit (n - i - 1)

theorem mod_two_beq_zero (n : Nat) : (n % 2 == 0) = !decide (n % 2 = 1) := by
  rcases Nat.mod_two_eq_zero_or_one n with h | h <;> rw [h] <;> rfl

/-- Shifting and masking read a digit. -/
theorem shiftRight_and_one (n i row : Nat) :
    ((row >>> (n - i - 1)) &&& 1 == 0) = placeValue n i row := by
  rw [Nat.and_one_is_mod, Nat.shiftRight_eq_div_pow, mod_two_beq_zero, placeValue,
    Nat.testBit_eq_decide_div_mod_eq]

/-- The runs of a symbol's column are as long as there are rows over the symbols behind it. -/
theorem runLength_eq {n i : Nat} (hi : i < n) : rowTotal n >>> (i + 1) = 2 ^ (n - i - 1) := by
  rw [rowTotal_eq, Nat.shiftRight_eq_div_pow, Nat.pow_div hi (by decide), Nat.sub_sub]

/-- Dividing by the length of a run reads the same digit. -/
theorem div_runLength {n i : Nat} (hi : i < n) (row : Nat) :
    (row / (rowTotal n >>> (i + 1)) % 2 == 0) = placeValue n i row := by
  rw [runLength_eq hi, mod_two_beq_zero, placeValue, Nat.testBit_eq_decide_div_mod_eq]

/-! ## Both computations read it -/

variable {symbols : List Symbol} {s : Symbol} {i row : Nat}

/-- Different symbols with values by place are different symbols. -/
theorem nodup_keys_zipIdx {ν : Type} (h : symbols.Nodup) (value : Nat → ν) :
    ((symbols.zipIdx.map fun p => (p.1, value p.2)).map Prod.fst).Nodup := by
  have hkeys : (symbols.zipIdx.map fun p => (p.1, value p.2)).map Prod.fst = symbols := by
    rw [List.map_map]
    exact List.zipIdx_map_fst 0 symbols
  rwa [hkeys]

/-- Among values by place a symbol has the one of its place. -/
theorem get?_ofList_zipIdx {ν : Type} (h : symbols.Nodup) (value : Nat → ν) (hi : symbols[i]? = some s) :
    (Assignment.ofList (symbols.zipIdx.map fun p => (p.1, value p.2))).get? s = some (value i) := by
  refine Assignment.get?_ofList_of_mem (nodup_keys_zipIdx h value) (List.mem_map.mpr ⟨(s, i), ?_, rfl⟩)
  exact List.mem_zipIdx_iff_getElem?.mpr hi

/-- The interpretation of a row gives each symbol the value of its place. -/
theorem get?_forRow (h : symbols.Nodup) (hi : symbols[i]? = some s) :
    (Interpretation.forRow symbols row).get? s = some (placeValue symbols.length i row) := by
  have hvalue := get?_ofList_zipIdx h (fun i => (row >>> (symbols.length - i - 1)) &&& 1 == 0) hi
  rw [shiftRight_and_one] at hvalue
  exact hvalue

theorem size_constantCells (n i : Nat) : (constantCells n i).size = rowTotal n := by
  rw [constantCells, Array.size_map, Array.size_range]

/-- The constant column of a symbol has the value of the symbol's place on each row. -/
theorem getElem?_constantCells {n : Nat} (hi : i < n) (hrow : row < rowTotal n) :
    (constantCells n i)[row]? = some (placeValue n i row) := by
  simp only [constantCells, Array.getElem?_map, Array.getElem?_range, hrow, if_true, Option.map_some,
    div_runLength hi]

/-- The constant columns of different symbols are in their sequence. -/
theorem pairs_constantColumns (h : symbols.Nodup) :
    (constantColumns symbols).pairs = symbols.zipIdx.map fun p => (p.1, constantCells symbols.length p.2) :=
  Assignment.pairs_ofList (nodup_keys_zipIdx h (constantCells symbols.length))

theorem size_of_mem_constantColumns {p : Symbol × Array Bool} (h : symbols.Nodup)
    (hp : p ∈ (constantColumns symbols).pairs) : p.2.size = rowTotal symbols.length := by
  rw [pairs_constantColumns h] at hp
  obtain ⟨q, _, rfl⟩ := List.mem_map.mp hp
  exact size_constantCells ..

theorem get?_constantColumns (h : symbols.Nodup) (hi : symbols[i]? = some s) :
    (constantColumns symbols).get? s = some (constantCells symbols.length i) :=
  get?_ofList_zipIdx h (constantCells symbols.length) hi

/-- The constant columns of different symbols cover every statement over these symbols. -/
theorem covers_constantColumns (h : symbols.Nodup) {f : Statement} (hf : ∀ s ∈ f.leaves, s ∈ symbols) :
    Covers (constantColumns symbols) (rowTotal symbols.length) f := by
  intro s hs
  obtain ⟨i, hlt, rfl⟩ := List.getElem_of_mem (hf s hs)
  exact ⟨_, get?_constantColumns h (List.getElem?_eq_getElem hlt), size_constantCells ..⟩

/-! ## Columns and interpretations agree -/

/-- The valuation of a row is that of its interpretation. -/
theorem rowValuation_eq (h : symbols.Nodup) (hs : s ∈ symbols) (hrow : row < rowTotal symbols.length) :
    (Interpretation.forRow symbols row).get? s = some (rowValuation (constantColumns symbols) row s) := by
  obtain ⟨i, hlt, rfl⟩ := List.getElem_of_mem hs
  have hi : symbols[i]? = some symbols[i] := List.getElem?_eq_getElem hlt
  rw [get?_forRow h hi, rowValuation, get?_constantColumns h hi, Option.bind_some,
    getElem?_constantCells hlt hrow, Option.getD_some]

variable {f : Statement}

/-- **The value on a row is the value under the interpretation of the row.** -/
theorem evaluate_forRow (h : symbols.Nodup) (hf : ∀ s ∈ f.leaves, s ∈ symbols)
    (hrow : row < rowTotal symbols.length) :
    (Interpretation.forRow symbols row).evaluate f =
      some (f.eval (rowValuation (constantColumns symbols) row)) :=
  Interpretation.evaluate_of_get? fun s hs => rowValuation_eq h (hf s hs) hrow

/-! ## Every valuation is that of a row -/

/-- The row whose digits are the values of the symbols, from the last symbol to the first. -/
def rowOf (symbols : List Symbol) (v : Symbol → Bool) : Nat :=
  Nat.ofBits fun k : Fin symbols.length => !v (symbols.get k.rev)

theorem rowOf_lt (symbols : List Symbol) (v : Symbol → Bool) : rowOf symbols v < rowTotal symbols.length := by
  rw [rowTotal_eq]
  exact Nat.ofBits_lt_two_pow _

theorem placeValue_rowOf (v : Symbol → Bool) (hi : i < symbols.length) :
    placeValue symbols.length i (rowOf symbols v) = v symbols[i] := by
  have hplace : symbols.length - (symbols.length - i - 1 + 1) = i := by omega
  rw [placeValue, rowOf, Nat.testBit_ofBits_lt _ _ (by omega), Bool.not_not]
  simp only [List.get_eq_getElem, Fin.val_rev, hplace]

/-- **Some row gives the symbols any values whatever.** -/
theorem exists_row (h : symbols.Nodup) (v : Symbol → Bool) :
    ∃ row < rowTotal symbols.length, ∀ s ∈ symbols, (Interpretation.forRow symbols row).get? s = some (v s) := by
  refine ⟨rowOf symbols v, rowOf_lt symbols v, fun s hs => ?_⟩
  obtain ⟨i, hlt, rfl⟩ := List.getElem_of_mem hs
  rw [get?_forRow h (List.getElem?_eq_getElem hlt), placeValue_rowOf v hlt]

/-- Some row gives every statement over the symbols the value that a valuation gives it. -/
theorem exists_row_eval (h : symbols.Nodup) (v : Symbol → Bool) :
    ∃ row < rowTotal symbols.length, ∀ f : Statement, (∀ s ∈ f.leaves, s ∈ symbols) →
      f.eval (rowValuation (constantColumns symbols) row) = f.eval v := by
  obtain ⟨row, hrow, hget⟩ := exists_row h v
  refine ⟨row, hrow, fun f hf => Formula.eval_congr fun s hs => ?_⟩
  have hvalue := hget s (hf s hs)
  rw [rowValuation_eq h (hf s hs) hrow] at hvalue
  exact Option.some.inj hvalue

/-- Some interpretation gives statements the values that a valuation gives them. -/
theorem exists_interpretation (v : Symbol → Bool) (statements : List Statement) :
    ∃ i : Interpretation, ∀ f ∈ statements, i.evaluate f = some (f.eval v) := by
  obtain ⟨row, _, hrow⟩ := exists_row (nodup_distinct (statements.flatMap Formula.leaves)) v
  refine ⟨_, fun f hf => Interpretation.evaluate_of_get? fun s hs => hrow s ?_⟩
  rw [mem_distinct, List.mem_flatMap]
  exact ⟨f, hf, hs⟩

end Sentential
