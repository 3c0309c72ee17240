import Mathlib.Data.Finset.Card
import Sentential.Proofs.Layout
import Sentential.Table.Words

/-!
# `Sentential.Proofs.Limits` — which tables there are, and which of them can be made in words

The number of symbols is compared with the limit before anything is made of them, and nothing else can be wrong:
every symbol of the sentences has a constant column, so that evaluation finds all it asks for. So there is a
table exactly within the limit, and the same one whatever the limit is.

In words there is one table less. The hard limit is made for the number of rows, which fits in a word up to 63
symbols, and then the shortest run is still one row long. But a column of `2 ^ 63` cells is larger than any array,
so that 63 symbols pass the limit and no column can be made of them (`Overflows`). Nothing else goes wrong in words
(`jointTableInWords_eq_ok`).

## Contents
* `shiftLeft_eq_ok`, `shiftRight_eq_ok`, `reserve_eq` — words as numbers
* `constantCellsInWords_eq_ok`, `constantCellsInWords_eq_error` — a constant column in words
* `symbolCount`, `symbolsWithin_eq_error` — above the limit
* `Overflows`, `jointTableInWords_eq_ok`, `jointTableInWords_eq_error` — tables in words
* `Limited`, `tables_limited` — which tables there are
-/

namespace Sentential

/-! ## Words as numbers -/

namespace Word

variable {distance : Nat}

/-- A shift within the width of a word has a result, of which the bits above the width are gone. -/
theorem shiftLeft_eq_ok (word : UInt64) (h : distance < 64) :
    ∃ shifted, shiftLeft word distance = .ok shifted ∧ shifted.toNat = (word.toNat <<< distance) % 2 ^ 64 := by
  refine ⟨_, if_pos h, ?_⟩
  rw [UInt64.toNat_shiftLeft, UInt64.toNat_ofNat_of_lt' (Nat.lt_trans h (by decide)), Nat.mod_eq_of_lt h]

theorem shiftRight_eq_ok (word : UInt64) (h : distance < 64) :
    ∃ shifted, shiftRight word distance = .ok shifted ∧ shifted.toNat = word.toNat >>> distance := by
  refine ⟨_, if_pos h, ?_⟩
  rw [UInt64.toNat_shiftRight, UInt64.toNat_ofNat_of_lt' (Nat.lt_trans h (by decide)), Nat.mod_eq_of_lt h]

/-- There is room for less than `2 ^ 63` bytes. -/
theorem reserve_eq (bytes : UInt64) :
    reserve bytes = if bytes.toNat < 2 ^ 63 then .ok () else .error (.capacity bytes.toNat) := by
  have hmost : bytes ≤ maxBytes ↔ bytes.toNat < 2 ^ 63 := by
    rw [UInt64.le_iff_toNat_le]
    exact Nat.lt_succ_iff.symm
  simp only [reserve, hmost]

end Word

/-! ## Constant columns in words -/

variable {n i : Nat}

/-- The number of rows fits in a word. -/
theorem rowTotal_lt {m : Nat} (h : n < m) : rowTotal n < 2 ^ m := by
  rw [rowTotal_eq]
  exact Nat.pow_lt_pow_right (by decide) h

/-- No run is empty. -/
theorem runLength_pos (hi : i < n) : 0 < rowTotal n >>> (i + 1) := by
  rw [runLength_eq hi]
  exact Nat.two_pow_pos _

theorem rowTotalInWord_eq_ok (h : n < 64) :
    ∃ height, rowTotalInWord n = .ok height ∧ height.toNat = rowTotal n := by
  obtain ⟨height, hheight, hrows⟩ := Word.shiftLeft_eq_ok 1 h
  exact ⟨height, hheight, hrows.trans (Nat.mod_eq_of_lt (rowTotal_lt h))⟩

-- One symbol more is one too many.
example : rowTotalInWord 64 = .error (.shift 64) := rfl

/-- Words have the same runs of values as numbers. -/
theorem run_even_eq {row : Nat} {runLength : UInt64} (hrow : row < 2 ^ 64) :
    (UInt64.ofNat row / runLength % 2 == 0) = (row / runLength.toNat % 2 == 0) := by
  rw [Bool.eq_iff_iff, beq_iff_eq, beq_iff_eq, ← UInt64.toNat_inj, UInt64.toNat_mod, UInt64.toNat_div,
    UInt64.toNat_ofNat_of_lt' hrow]
  rfl

/-- **A constant column over less than 63 symbols can be computed in words**: no shift is too far, no run is empty,
    and there is room for the cells. -/
theorem constantCellsInWords_eq_ok (hn : n < 63) (hi : i < n) :
    constantCellsInWords n i = .ok (constantCells n i) := by
  obtain ⟨height, hheight, hrows⟩ := rowTotalInWord_eq_ok (Nat.lt_trans hn (by decide))
  obtain ⟨runLength, hshift, hrun⟩ := Word.shiftRight_eq_ok height (show i + 1 < 64 by omega)
  rw [hrows] at hrun
  have hroom : Word.reserve height = .ok () := by
    rw [Word.reserve_eq, hrows, if_pos (rowTotal_lt hn)]
  have hdivide : ∀ word, Word.divide word runLength = .ok (word / runLength) := by
    intro word
    refine if_neg ?_
    rintro rfl
    exact Nat.ne_of_lt (runLength_pos hi) hrun
  refine bind_eq_ok_iff.mpr ⟨height, hheight, bind_eq_ok_iff.mpr ⟨runLength, hshift, ?_⟩⟩
  refine bind_eq_ok_iff.mpr ⟨(), hroom, ?_⟩
  simp only [hdivide]
  refine (Array.mapM_pure (m := Except WordFault)).trans (congrArg Except.ok ?_)
  rw [hrows, constantCells, ← hrun]
  refine Array.map_congr_left fun row hrow => run_even_eq ?_
  exact Nat.lt_trans (Array.mem_range.mp hrow) (rowTotal_lt (Nat.lt_trans hn (by decide)))

/-- **There is no room for a constant column over 63 symbols.** -/
theorem constantCellsInWords_eq_error (hi : i < 63) :
    constantCellsInWords 63 i = .error (.capacity (2 ^ 63)) := by
  obtain ⟨height, hheight, hrows⟩ := rowTotalInWord_eq_ok (show 63 < 64 by decide)
  obtain ⟨runLength, hshift, _⟩ := Word.shiftRight_eq_ok height (show i + 1 < 64 by omega)
  rw [rowTotal_eq] at hrows
  have hnoroom : Word.reserve height = .error (.capacity (2 ^ 63)) := by
    rw [Word.reserve_eq, hrows, if_neg (Nat.lt_irrefl _)]
  rw [constantCellsInWords, hheight]
  show (Word.shiftRight height (i + 1) >>= _) = _
  rw [hshift]
  show (Word.reserve height >>= _) = _
  rw [hnoroom]
  rfl

variable {symbols : List Symbol}

/-- The constant columns of less than 63 symbols can be computed in words. -/
theorem constantColumnsInWords_eq_ok (h : symbols.length < 63) :
    constantColumnsInWords symbols = .ok (constantColumns symbols) := by
  refine bind_eq_ok_iff.mpr ⟨symbols.zipIdx.map fun p => (p.1, constantCells symbols.length p.2), ?_, rfl⟩
  rw [mapM_eq_ok_iff, List.forall₂_map_right_iff, List.forall₂_same]
  rintro ⟨s, i⟩ hmem
  have hi : i < symbols.length := List.snd_lt_of_mem_zipIdx hmem
  refine bind_eq_ok_iff.mpr ⟨_, constantCellsInWords_eq_ok h hi, rfl⟩

/-- For the constant columns of 63 symbols there is no room from the first on. -/
theorem constantColumnsInWords_eq_error (h : symbols.length = 63) :
    constantColumnsInWords symbols = .error (.capacity (2 ^ 63)) := by
  cases symbols with
  | nil => exact absurd h (by decide)
  | cons s rest =>
    have hfirst : constantCellsInWords 63 0 = .error (.capacity (2 ^ 63)) := constantCellsInWords_eq_error (by decide)
    rw [constantColumnsInWords, h, List.zipIdx_cons, List.mapM_cons]
    dsimp only
    rw [hfirst]
    rfl

variable {limit : Limit} {isArgument : Bool} {sentences : List Sentence} {t : Sentence}

/-! ## Above the limit -/

theorem symbolsWithin_eq_error (h : limit.enforced < (symbolsOf sentences).length) :
    symbolsWithin limit sentences = .error (.sizeLimit (symbolsOf sentences).length limit.enforced) := by
  have hcheck : limit.check (symbolsOf sentences).length =
      .error (.sizeLimit (symbolsOf sentences).length limit.enforced) := if_pos h
  unfold symbolsOf at hcheck ⊢
  simp only [symbolsWithin, hcheck]

/-- Symbols that are within the limit are those of the sentences, and there are no more than 63. -/
theorem eq_of_symbolsWithin (h : symbolsWithin limit sentences = .ok symbols) :
    symbols = symbolsOf sentences ∧ symbols.length ≤ limit.maxVariables ∧ symbols.length ≤ 63 := by
  by_cases hlimit : (symbolsOf sentences).length ≤ limit.enforced
  · obtain rfl := Except.ok.inj ((symbolsWithin_eq hlimit).symm.trans h)
    exact ⟨rfl, Nat.le_trans hlimit (Nat.min_le_left ..), Nat.le_trans hlimit (Nat.min_le_right ..)⟩
  · rw [symbolsWithin_eq_error (Nat.not_le.mp hlimit)] at h
    exact absurd h (by simp)

/-- The number of different symbols that sentences are written with. -/
def symbolCount (sentences : List Sentence) : Nat := (sentences.flatMap Sentence.writtenSymbols).toFinset.card

theorem symbolCount_eq (sentences : List Sentence) : symbolCount sentences = (symbolsOf sentences).length := by
  have hsymbols : (sentences.flatMap Sentence.writtenSymbols).toFinset = (symbolsOf sentences).toFinset := by
    rw [symbolsOf_eq_written]
    ext s
    rw [List.mem_toFinset, List.mem_toFinset, mem_distinct]
  exact (congrArg Finset.card hsymbols).trans (List.toFinset_card_of_nodup (nodup_distinct _))

/-! ## Tables in words -/

/-- The limit admits a table that is too large for words. -/
def Overflows (limit : Limit) (sentences : List Sentence) : Prop :=
  (symbolsOf sentences).length = 63 ∧ 63 ≤ limit.maxVariables

/-- Of sentences that overflow the symbols are within the limit. -/
theorem Overflows.symbolsWithin_eq (h : Overflows limit sentences) :
    symbolsWithin limit sentences = .ok (symbolsOf sentences) :=
  Sentential.symbolsWithin_eq (h.1 ▸ Nat.le_min.mpr ⟨h.2, Nat.le_refl 63⟩)

/-- Symbols that are within the limit are less than 63 if the sentences do not overflow. -/
theorem lt_of_not_overflows (hsymbols : symbolsWithin limit sentences = .ok symbols)
    (h : ¬Overflows limit sentences) : symbols.length < 63 := by
  obtain ⟨rfl, hlimit, hmost⟩ := eq_of_symbolsWithin hsymbols
  refine Nat.lt_of_le_of_ne hmost fun hlength => h ⟨hlength, ?_⟩
  rwa [hlength] at hlimit

/-- **No arithmetic of a table fails in words** unless it overflows. -/
theorem Sentence.tableInWords_eq_ok (h : ¬Overflows limit [t]) : t.tableInWords limit = .ok (t.table limit) := by
  unfold tableInWords table
  cases hsymbols : symbolsWithin limit [t] with
  | error e => rfl
  | ok symbols =>
    dsimp only
    rw [constantColumnsInWords_eq_ok (lt_of_not_overflows hsymbols h)]
    rfl

theorem Sentence.tableInWords_eq_error (h : Overflows limit [t]) :
    t.tableInWords limit = .error (.capacity (2 ^ 63)) := by
  rw [tableInWords, h.symbolsWithin_eq]
  dsimp only
  rw [constantColumnsInWords_eq_error h.1]
  rfl

theorem jointTableInWords_eq_ok (h : ¬Overflows limit sentences) :
    jointTableInWords limit isArgument sentences = .ok (jointTable limit isArgument sentences) := by
  unfold jointTableInWords jointTable
  by_cases hempty : sentences.isEmpty
  · rw [if_pos hempty, if_pos hempty]
    rfl
  · rw [if_neg hempty, if_neg hempty]
    cases hsymbols : symbolsWithin limit sentences with
    | error e => rfl
    | ok symbols =>
      have hlt := lt_of_not_overflows hsymbols h
      obtain ⟨height, hheight, hrows⟩ := rowTotalInWord_eq_ok (Nat.lt_trans hlt (by decide))
      dsimp only
      rw [constantColumnsInWords_eq_ok hlt, hheight]
      dsimp only [bind, Except.bind]
      rw [hrows]
      rfl

theorem jointTableInWords_eq_error (hne : sentences ≠ []) (h : Overflows limit sentences) :
    jointTableInWords limit isArgument sentences = .error (.capacity (2 ^ 63)) := by
  have hsome : ¬sentences.isEmpty = true := by simpa using hne
  rw [jointTableInWords, if_neg hsome, h.symbolsWithin_eq]
  dsimp only
  rw [constantColumnsInWords_eq_error h.1]
  rfl

/-! ## Which tables there are -/

/-- Which tables over `n` symbols there are in words. The first three cases exclude each other, and there is no
    other. -/
structure Limited (n : Nat) (make : Limit → Except LogicError TableViews)
    (makeInWords : Limit → Except WordFault (Except LogicError TableViews)) : Prop where
  /-- Above the limit they are refused, with the number of symbols and the limit that is enforced. -/
  refused : ∀ limit, min limit.maxVariables 63 < n →
    makeInWords limit = .ok (.error (.sizeLimit n (min limit.maxVariables 63)))
  /-- As many symbols as the limit ever admits are too many: a column is larger than any array. -/
  faulty : ∀ limit, n = 63 → 63 ≤ limit.maxVariables → makeInWords limit = .error (.capacity (2 ^ 63))
  /-- All others are made. They do not depend on the limit, and are those made of numbers. -/
  made : n < 63 → ∃ views, views.constants.length = n ∧
    ∀ limit, n ≤ limit.maxVariables → makeInWords limit = .ok (.ok views) ∧ make limit = .ok views
  /-- Up to the hard limit no shift is as far as a word is wide, and no run is empty. -/
  shifts : n ≤ 63 → n < 64 ∧ ∀ i < n, i + 1 < 64 ∧ rowTotal n >>> (i + 1) ≠ 0

/-- What depends on the limit only by the symbols that are within it, and then needs nothing more but room. -/
theorem limited_of_symbolsWithin {make : Limit → Except LogicError TableViews}
    {makeInWords : Limit → Except WordFault (Except LogicError TableViews)}
    (hcongr : ∀ limit limit', symbolsWithin limit sentences = symbolsWithin limit' sentences →
      make limit = make limit')
    (herror : ∀ limit e, symbolsWithin limit sentences = .error e → make limit = .error e)
    (hok : ∀ limit : Limit, (symbolsOf sentences).length ≤ limit.enforced →
      ∃ views, make limit = .ok views ∧ views.constants = symbolsOf sentences)
    (hwords : ∀ limit, ¬Overflows limit sentences → makeInWords limit = .ok (make limit))
    (hfault : ∀ limit, Overflows limit sentences → makeInWords limit = .error (.capacity (2 ^ 63))) :
    Limited (symbolCount sentences) make makeInWords := by
  rw [symbolCount_eq]
  constructor
  case refused =>
    intro limit h
    have hfits : ¬Overflows limit sentences := fun hover => by
      rw [hover.1] at h
      exact Nat.not_le.mpr h (Nat.le_min.mpr ⟨hover.2, Nat.le_refl 63⟩)
    rw [hwords limit hfits, herror limit _ (symbolsWithin_eq_error h)]
    rfl
  case faulty => exact fun limit hlength hlimit => hfault limit ⟨hlength, hlimit⟩
  case made =>
    intro hlt
    have hwithin : ∀ limit : Limit, (symbolsOf sentences).length ≤ limit.maxVariables →
        (symbolsOf sentences).length ≤ limit.enforced :=
      fun limit h => Nat.le_min.mpr ⟨h, Nat.le_of_lt hlt⟩
    obtain ⟨views, hviews, hconstants⟩ := hok ⟨63⟩ (hwithin ⟨63⟩ (Nat.le_of_lt hlt))
    refine ⟨views, by rw [hconstants], fun limit h => ?_⟩
    have hmake : make limit = .ok views := by
      rw [← hviews]
      refine hcongr limit ⟨63⟩ ?_
      rw [symbolsWithin_eq (hwithin limit h), symbolsWithin_eq (hwithin ⟨63⟩ (Nat.le_of_lt hlt))]
    exact ⟨by rw [hwords limit fun hover => Nat.ne_of_lt hlt hover.1, hmake], hmake⟩
  case shifts =>
    intro hmost
    exact ⟨Nat.lt_succ_of_le hmost, fun i hi => ⟨by omega, Nat.ne_of_gt (runLength_pos hi)⟩⟩

/-- **Below 63 symbols there is a table exactly within the limit**, for any limit that is set and any sentences.
    What is above the limit is refused with the number of symbols and the limit that is enforced, and there is
    nothing to join exactly if there are no sentences. As many symbols as the limit ever admits have no table in
    words, for there is no room for a column. -/
theorem tables_limited (isArgument : Bool) :
    (∀ limit sentences,
      jointTableInWords limit isArgument sentences = .ok (.error .nothingToJoin) ↔ sentences = []) ∧
      (∀ sentences, sentences ≠ [] → Limited (symbolCount sentences) (jointTable · isArgument sentences)
        (jointTableInWords · isArgument sentences)) ∧
      ∀ t : Sentence, Limited (symbolCount [t]) (t.table ·) (t.tableInWords ·) := by
  have hjoint : ∀ sentences, sentences ≠ [] → Limited (symbolCount sentences) (jointTable · isArgument sentences)
      (jointTableInWords · isArgument sentences) := by
    intro sentences hne
    have hsome : ¬sentences.isEmpty = true := by simpa using hne
    refine limited_of_symbolsWithin (fun limit limit' h => ?_) (fun limit e h => ?_) (fun limit h => ?_)
      (fun limit => jointTableInWords_eq_ok) fun limit => jointTableInWords_eq_error hne
    · unfold jointTable
      rw [h]
    · unfold jointTable
      rw [if_neg hsome, h]
      rfl
    · obtain ⟨views, hviews, hshow⟩ := jointTable_shows isArgument hne h
      exact ⟨views, hviews, hshow.constants⟩
  refine ⟨fun limit sentences => ⟨fun h => ?_, ?_⟩, hjoint, fun t => ?_⟩
  · by_contra hne
    -- whichever case it is, the answer is another one
    have hlimited := hjoint sentences hne
    rcases Nat.lt_or_ge (min limit.maxVariables 63) (symbolCount sentences) with hlarge | hwithin
    · rw [hlimited.refused limit hlarge] at h
      exact absurd h (by simp)
    · rcases Nat.lt_or_ge (symbolCount sentences) 63 with hlt | hge
      · obtain ⟨views, _, hmade⟩ := hlimited.made hlt
        rw [(hmade limit (by omega)).1] at h
        exact absurd h (by simp)
      · rw [hlimited.faulty limit (by omega) (by omega)] at h
        exact absurd h (by simp)
  · rintro rfl
    rfl
  · refine limited_of_symbolsWithin (fun limit limit' h => ?_) (fun limit e h => ?_) (fun limit h => ?_)
      (fun limit => t.tableInWords_eq_ok) fun limit => t.tableInWords_eq_error
    · unfold Sentence.table
      rw [h]
    · unfold Sentence.table
      rw [h]
      rfl
    · have hcovers : ∀ s ∈ t.statement.leaves, s ∈ symbolsOf [t] :=
        fun s hs => mem_symbolsOf.mpr ⟨t, List.mem_singleton_self t, hs⟩
      obtain ⟨views, hviews, _⟩ := views_eq_ok (covers_constantColumns (nodup_distinct _) hcovers)
      exact ⟨_, table_eq_views h hviews, rfl⟩

/-! ## At the hard limit -/

/-- Different symbols, so many as are wanted: runs of one letter. -/
def runsOfA (n : Nat) : List Symbol := (List.range n).map fun k => ⟨String.ofList (List.replicate (k + 1) 'A')⟩

@[simp] theorem length_runsOfA (n : Nat) : (runsOfA n).length = n := by
  rw [runsOfA, List.length_map, List.length_range]

theorem nodup_runsOfA (n : Nat) : (runsOfA n).Nodup := by
  refine List.Nodup.map (fun k m h => ?_) List.nodup_range
  have hchars := congrArg (List.length ∘ String.toList ∘ Symbol.name) h
  simpa using hchars

/-- The symbols as sentences. -/
def sentencesOfA (n : Nat) : List Sentence := (runsOfA n).map .symbol

theorem symbolCount_sentencesOfA (n : Nat) : symbolCount (sentencesOfA n) = n := by
  have hwritten : (sentencesOfA n).flatMap Sentence.writtenSymbols = runsOfA n := by
    rw [sentencesOfA, List.flatMap_map]
    exact List.flatMap_singleton' _
  rw [symbolCount, hwritten, List.toFinset_card_of_nodup (nodup_runsOfA n), length_runsOfA]

theorem sentencesOfA_ne_nil {n : Nat} (h : n ≠ 0) : sentencesOfA n ≠ [] := by
  intro hnil
  have hlength := congrArg List.length hnil
  rw [sentencesOfA, List.length_map, length_runsOfA] at hlength
  exact h hlength

/-- With a limit that is not reached: a table over one symbol less than the hard limit, none at it, and one more
    symbol above it. -/
theorem tables_limited_edge :
    sentencesOfA 62 ≠ [] ∧ sentencesOfA 63 ≠ [] ∧ sentencesOfA 64 ≠ [] ∧
      (∃ joint, jointTableInWords ⟨100⟩ false (sentencesOfA 62) = .ok (.ok joint) ∧ joint.constants.length = 62 ∧
        jointTable ⟨100⟩ false (sentencesOfA 62) = .ok joint) ∧
      jointTableInWords ⟨100⟩ false (sentencesOfA 63) = .error (.capacity (2 ^ 63)) ∧
      jointTableInWords ⟨100⟩ false (sentencesOfA 64) = .ok (.error (.sizeLimit 64 63)) := by
  have hne : ∀ n, n ≠ 0 → sentencesOfA n ≠ [] := fun n => sentencesOfA_ne_nil
  have hlimited : ∀ n, n ≠ 0 → Limited n (jointTable · false (sentencesOfA n))
      (jointTableInWords · false (sentencesOfA n)) := by
    intro n hn
    have h := (tables_limited false).2.1 (sentencesOfA n) (hne n hn)
    rwa [symbolCount_sentencesOfA] at h
  refine ⟨hne 62 (by decide), hne 63 (by decide), hne 64 (by decide), ?_, ?_, ?_⟩
  · obtain ⟨joint, hconstants, hmade⟩ := (hlimited 62 (by decide)).made (by decide)
    obtain ⟨hwords, hnumbers⟩ := hmade ⟨100⟩ (by decide)
    exact ⟨joint, hwords, hconstants, hnumbers⟩
  · exact (hlimited 63 (by decide)).faulty ⟨100⟩ rfl (by decide)
  · exact (hlimited 64 (by decide)).refused ⟨100⟩ (by decide)

/-- At the hard limit the number of symbols is within the limit, and still there is no table. -/
theorem no_table_at_hard_limit :
    sentencesOfA 63 ≠ [] ∧ symbolCount (sentencesOfA 63) ≤ min (Limit.mk 63).maxVariables 63 ∧
      ¬∃ joint, jointTableInWords ⟨63⟩ false (sentencesOfA 63) = .ok (.ok joint) := by
  have hcount := symbolCount_sentencesOfA 63
  have hne : sentencesOfA 63 ≠ [] := sentencesOfA_ne_nil (by decide)
  refine ⟨hne, hcount.le, ?_⟩
  rintro ⟨joint, hjoint⟩
  rw [symbolCount_eq] at hcount
  rw [jointTableInWords_eq_error hne ⟨hcount, Nat.le_refl 63⟩] at hjoint
  exact absurd hjoint (by simp)

end Sentential
