import Sentential.Proofs.Limits

/-!
# `Sentential.Proofs.Enumeration` — rows enumerate the assignments

A table has to show every assignment of truth values to its symbols, and each of them once. The values on a row are
the binary digits of its number, from the most significant one down (`placeValues`). Of two numbers the smaller one
has the smaller digit where they first differ, and a zero digit is true: rows are in lexicographic order with true
before false (`lex_placeValues`). Nothing comes before itself in this order, and so no two rows show the same
(`eq_of_across_eq`). That no assignment is missing has nothing to do with the order; its row is made of its values,
digit by digit (`rowOf`).

The interpretation of a row shifts the row where a constant column divides it. It can be computed in words of 64
bits for as many symbols as a word has bits (`forRowInWords_eq`). The columns cannot: for those of 63 symbols there
is no room, so that the rows of 63 symbols have interpretations and are shown nowhere.

## Contents
* `placeValues`, `TrueFirst`, `lex_placeValues` — the digits of a row, and rows in order
* `Interpretation.values`, `Interpretation.Precedes` — the order of interpretations
* `Assignment.across`, `across_constantColumns`, `eq_of_across_eq` — constant columns read across
* `Interpretation.forRowInWords`, `forRowInWords_eq` — the interpretation of a row in words
* `Enumerated`, `rows_enumerate` — every assignment on exactly one row, in order
-/

namespace Sentential

/-! ## Digits in order -/

/-- The values that a row gives to `n` symbols, from the first symbol to the last. -/
def placeValues (n row : Nat) : List Bool := (List.range n).map (placeValue n · row)

/-- The first symbol has the most significant digit, and the others have the digits below it. -/
theorem placeValues_succ (n row : Nat) : placeValues (n + 1) row = (!row.testBit n) :: placeValues n row := by
  have hbelow : (placeValue (n + 1) · row) ∘ Nat.succ = (placeValue n · row) := by
    funext i
    show placeValue (n + 1) (i + 1) row = placeValue n i row
    rw [placeValue, placeValue, Nat.add_sub_add_right]
  rw [placeValues, List.range_succ_eq_map, List.map_cons, List.map_map, hbelow]
  rfl

/-- True comes before false. -/
def TrueFirst (p q : Bool) : Prop := p = true ∧ q = false

/-- **The smaller of two rows comes first**, in lexicographic order of the values that they give. Digits above
    those of the symbols are left out of account. -/
theorem lex_placeValues {n row row' : Nat} (h : row % 2 ^ n < row' % 2 ^ n) :
    List.Lex TrueFirst (placeValues n row) (placeValues n row') := by
  induction n with
  | zero => omega
  | succ n ih =>
    have hlt : row' % 2 ^ n < 2 ^ n := Nat.mod_lt row' (Nat.two_pow_pos n)
    rw [Nat.mod_pow_succ, Nat.mod_pow_succ, ← Nat.toNat_testBit, ← Nat.toNat_testBit] at h
    rw [placeValues_succ, placeValues_succ]
    -- the leading digits decide, unless they are the same
    cases hrow : row.testBit n <;> cases hrow' : row'.testBit n
    · simp only [hrow, hrow', Bool.toNat_false, Nat.mul_zero, Nat.add_zero] at h
      exact .cons (ih h)
    · exact .rel ⟨rfl, rfl⟩
    · simp only [hrow, hrow', Bool.toNat_true, Bool.toNat_false] at h
      omega
    · simp only [hrow, hrow', Bool.toNat_true, Nat.mul_one, Nat.add_lt_add_iff_right] at h
      exact .cons (ih h)

/-- Values do not come before themselves. -/
theorem lex_trueFirst_irrefl (values : List Bool) : ¬List.Lex TrueFirst values values :=
  List.lex_irrefl (fun _ h => Bool.noConfusion (h.1.symm.trans h.2)) values

/-- Different rows give different values. -/
theorem eq_of_placeValues_eq {n row row' : Nat} (hrow : row < 2 ^ n) (hrow' : row' < 2 ^ n)
    (h : placeValues n row = placeValues n row') : row = row' := by
  by_contra hne
  rw [← Nat.mod_eq_of_lt hrow, ← Nat.mod_eq_of_lt hrow'] at hne
  rcases Nat.lt_or_gt_of_ne hne with hlt | hlt
  · exact lex_trueFirst_irrefl _ (h ▸ lex_placeValues hlt)
  · exact lex_trueFirst_irrefl _ (h ▸ lex_placeValues hlt)

/-! ## Interpretations of rows -/

namespace Interpretation

/-- The values of the interpretation, in the sequence of its symbols. -/
def values (i : Interpretation) : List Bool := i.pairs.map Prod.snd

/-- The first interpretation comes first in lexicographic order, true before false. -/
def Precedes (i j : Interpretation) : Prop := List.Lex TrueFirst i.values j.values

end Interpretation

variable {symbols : List Symbol} {row row' : Nat}

/-- The interpretation of a row has the symbols in their sequence, each with the value of its place. -/
theorem pairs_forRow (h : symbols.Nodup) (row : Nat) :
    (Interpretation.forRow symbols row).pairs =
      symbols.zipIdx.map fun p => (p.1, placeValue symbols.length p.2 row) := by
  rw [Interpretation.forRow, Interpretation.rowPairs]
  simp only [shiftRight_and_one]
  exact Assignment.pairs_ofList (nodup_keys_zipIdx h (placeValue symbols.length · row))

theorem values_forRow (h : symbols.Nodup) (row : Nat) :
    (Interpretation.forRow symbols row).values = placeValues symbols.length row := by
  rw [Interpretation.values, pairs_forRow h, List.map_map, placeValues, List.range_eq_range',
    ← List.zipIdx_map_snd 0 symbols, List.map_map]
  rfl

/-- The row made of the values of symbols has the interpretation with these values. -/
theorem pairs_forRow_rowOf (h : symbols.Nodup) (v : Symbol → Bool) :
    (Interpretation.forRow symbols (rowOf symbols v)).pairs = symbols.map fun s => (s, v s) := by
  have hvalues : ∀ p ∈ symbols.zipIdx,
      (p.1, placeValue symbols.length p.2 (rowOf symbols v)) = (p.1, v p.1) := by
    rintro ⟨s, i⟩ hp
    obtain ⟨hi, hs⟩ := List.getElem?_eq_some_iff.mp (List.mem_zipIdx_iff_getElem?.mp hp)
    show (s, placeValue symbols.length i (rowOf symbols v)) = (s, v s)
    rw [placeValue_rowOf v hi, hs]
  calc (Interpretation.forRow symbols (rowOf symbols v)).pairs
      = symbols.zipIdx.map fun p => (p.1, v p.1) := by
        rw [pairs_forRow h]
        exact List.map_congr_left hvalues
    _ = (symbols.zipIdx.map Prod.fst).map fun s => (s, v s) := by
        rw [List.map_map]
        rfl
    _ = symbols.map fun s => (s, v s) := by rw [List.zipIdx_map_fst]

/-! ## Constant columns read across -/

/-- The cells of columns on a row, each with its symbol. -/
def Assignment.across (columns : Assignment (Array Bool)) (row : Nat) : List (Symbol × Option Bool) :=
  columns.pairs.map fun p => (p.1, p.2[row]?)

/-- The values of symbols as the cells that show them. -/
def shownAs (pairs : List (Symbol × Bool)) : List (Symbol × Option Bool) := pairs.map (Prod.map id some)

theorem shownAs_injective : Function.Injective shownAs :=
  List.map_injective_iff.mpr (Function.injective_id.prodMap (Option.some_injective Bool))

/-- **A row shows what its interpretation assigns.** -/
theorem across_constantColumns (h : symbols.Nodup) (hrow : row < 2 ^ symbols.length) :
    (constantColumns symbols).across row = shownAs (Interpretation.forRow symbols row).pairs := by
  rw [Assignment.across, pairs_constantColumns h, shownAs, pairs_forRow h, List.map_map, List.map_map]
  refine List.map_congr_left fun p hp => Prod.ext rfl ?_
  rw [← rowTotal_eq] at hrow
  exact getElem?_constantCells (List.snd_lt_of_mem_zipIdx hp) hrow

/-- **No two rows show the same.** -/
theorem eq_of_across_eq (h : symbols.Nodup) (hrow : row < 2 ^ symbols.length) (hrow' : row' < 2 ^ symbols.length)
    (hacross : (constantColumns symbols).across row = (constantColumns symbols).across row') : row = row' := by
  rw [across_constantColumns h hrow, across_constantColumns h hrow'] at hacross
  have hpairs := shownAs_injective hacross
  have hvalues : (Interpretation.forRow symbols row).values = (Interpretation.forRow symbols row').values :=
    congrArg (List.map Prod.snd) hpairs
  rw [values_forRow h, values_forRow h] at hvalues
  exact eq_of_placeValues_eq hrow hrow' hvalues

/-! ## The interpretation of a row in words -/

/-- The interpretation that a row stands for, computed in words. -/
def Interpretation.forRowInWords (symbols : List Symbol) (row : UInt64) : Except WordFault Interpretation := do
  let pairs ← symbols.zipIdx.mapM fun (s, i) => do
    let shifted ← Word.shiftRight row (symbols.length - i - 1)
    return (s, shifted &&& 1 == 0)
  return Assignment.ofList pairs

/-- Words have the same last digit as numbers. -/
theorem and_one_eq (word : UInt64) : (word &&& 1 == 0) = (word.toNat &&& 1 == 0) := by
  rw [Bool.eq_iff_iff, beq_iff_eq, beq_iff_eq, ← UInt64.toNat_inj, UInt64.toNat_and]
  rfl

/-- **The interpretation of a row can be computed in words**, for no shift is too far. -/
theorem forRowInWords_eq (h : symbols.length ≤ 64) (row : UInt64) :
    Interpretation.forRowInWords symbols row = .ok (Interpretation.forRow symbols row.toNat) := by
  refine bind_eq_ok_iff.mpr ⟨Interpretation.rowPairs symbols row.toNat, ?_, rfl⟩
  rw [mapM_eq_ok_iff, Interpretation.rowPairs, List.forall₂_map_right_iff, List.forall₂_same]
  rintro ⟨s, i⟩ hmem
  have hi : i < symbols.length := List.snd_lt_of_mem_zipIdx hmem
  obtain ⟨shifted, hshift, hdigits⟩ := Word.shiftRight_eq_ok row (show symbols.length - i - 1 < 64 by omega)
  refine bind_eq_ok_iff.mpr ⟨shifted, hshift, ?_⟩
  rw [and_one_eq, hdigits]
  rfl

/-! ## Every assignment on one row -/

/-- Rows enumerate the assignments of truth values to symbols. -/
structure Enumerated (symbols : List Symbol) : Prop where
  /-- Any values whatever are shown in the constant columns on exactly one row. -/
  once : ∀ v : Symbol → Bool, ∃! row, row < 2 ^ symbols.length ∧
    (constantColumns symbols).across row = shownAs (symbols.map fun s => (s, v s))
  /-- The interpretation of a row assigns what is shown there. -/
  shown : ∀ row < 2 ^ symbols.length,
    (constantColumns symbols).across row = shownAs (Interpretation.forRow symbols row).pairs
  /-- Rows are in the order of their interpretations. -/
  sorted : ∀ row row', row < row' → row' < 2 ^ symbols.length →
    (Interpretation.forRow symbols row).Precedes (Interpretation.forRow symbols row')
  /-- The constant columns of less than 63 symbols can be computed in words. -/
  columnsInWords : symbols.length < 63 → constantColumnsInWords symbols = .ok (constantColumns symbols)
  /-- For those of 63 symbols there is no room. -/
  noColumnsInWords : symbols.length = 63 → constantColumnsInWords symbols = .error (.capacity (2 ^ 63))
  /-- The interpretation of a row can be computed in words, whose number is a word. -/
  forRowInWords : ∀ row < 2 ^ symbols.length,
    Interpretation.forRowInWords symbols (.ofNat row) = .ok (Interpretation.forRow symbols row)

/-- **Rows enumerate every assignment exactly once**, in lexicographic order with true before false and the first
    symbol most significant. -/
theorem rows_enumerate (hnodup : symbols.Nodup) (hlength : symbols.length ≤ 63) : Enumerated symbols := by
  constructor
  case once =>
    intro v
    have hlt : rowOf symbols v < 2 ^ symbols.length := by
      rw [← rowTotal_eq]
      exact rowOf_lt symbols v
    have hshown : (constantColumns symbols).across (rowOf symbols v) = shownAs (symbols.map fun s => (s, v s)) := by
      rw [across_constantColumns hnodup hlt, pairs_forRow_rowOf hnodup]
    refine ⟨rowOf symbols v, ⟨hlt, hshown⟩, ?_⟩
    rintro row ⟨hrow, hacross⟩
    exact eq_of_across_eq hnodup hrow hlt (hacross.trans hshown.symm)
  case shown => exact fun row hrow => across_constantColumns hnodup hrow
  case sorted =>
    intro row row' hlt hrow'
    rw [Interpretation.Precedes, values_forRow hnodup, values_forRow hnodup]
    refine lex_placeValues ?_
    rwa [Nat.mod_eq_of_lt (Nat.lt_trans hlt hrow'), Nat.mod_eq_of_lt hrow']
  case columnsInWords => exact constantColumnsInWords_eq_ok
  case noColumnsInWords => exact constantColumnsInWords_eq_error
  case forRowInWords =>
    intro row hrow
    have hfits : row < 2 ^ 64 :=
      Nat.lt_of_lt_of_le hrow (Nat.pow_le_pow_right (by decide) (Nat.le_succ_of_le hlength))
    rw [forRowInWords_eq (Nat.le_succ_of_le hlength), UInt64.toNat_ofNat_of_lt' hfits]

/-- Three symbols, of which the middle one is named as disjunction is written. -/
theorem rows_enumerate_three :
    ∃ symbols : List Symbol, symbols = [⟨"A"⟩, ⟨"v"⟩, ⟨"B"⟩] ∧ symbols.Nodup ∧ symbols.length ≤ 63 ∧
      Enumerated symbols ∧ (Interpretation.forRow symbols 2).text = "\x7bA, ¬v, B\x7d" ∧
      (Interpretation.forRow symbols 5).text = "\x7b¬A, v, ¬B\x7d" := by
  obtain ⟨symbols, hsymbols, hnodup, hlength, htwo, hfive⟩ : ∃ symbols : List Symbol,
      symbols = [⟨"A"⟩, ⟨"v"⟩, ⟨"B"⟩] ∧ symbols.Nodup ∧ symbols.length ≤ 63 ∧
      (Interpretation.forRow symbols 2).text = "\x7bA, ¬v, B\x7d" ∧
      (Interpretation.forRow symbols 5).text = "\x7b¬A, v, ¬B\x7d" :=
    ⟨_, rfl, by decide, by decide, by decide +kernel, by decide +kernel⟩
  exact ⟨symbols, hsymbols, hnodup, hlength, rows_enumerate hnodup hlength, htwo, hfive⟩

/-- Of 63 symbols, no row shows any assignment in constant columns that were computed in words. -/
theorem not_shown_at_hard_limit :
    (runsOfA 63).Nodup ∧ (runsOfA 63).length ≤ 63 ∧
      ¬∃ columns, constantColumnsInWords (runsOfA 63) = .ok columns ∧ ∀ v : Symbol → Bool, ∃! row,
        row < 2 ^ (runsOfA 63).length ∧ columns.across row = shownAs ((runsOfA 63).map fun s => (s, v s)) := by
  have hlength := length_runsOfA 63
  refine ⟨nodup_runsOfA 63, hlength.le, ?_⟩
  rintro ⟨columns, hcolumns, -⟩
  rw [constantColumnsInWords_eq_error hlength] at hcolumns
  exact absurd hcolumns (by simp)

end Sentential
