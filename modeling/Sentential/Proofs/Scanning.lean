import Sentential.Proofs.Grammar

/-!
# `Sentential.Proofs.Scanning` — the cut of a text is the only one

`scan` cuts a text from the right end, one character at a time. Here the cut is compared with `Written`: the
parts that it finds, written out, are the text (`written_scan`), and a part that is in front of a text is cut
off whole as long as the text does not go on with it (`scan_append`). Together they say that the parts of a
text are determined by the text alone.

## Contents
* `Lexical`, `EndsBefore` — what a part may be, and that the text behind it does not prolong it
* `Written.cut` — what is written behind a part stands for itself
* `continues_scan` — a text goes on with a letter exactly when its first lexeme is a word without a gap
* `written_scan`, `gaps_scan` — the cut is a writing of its parts, with blanks in its gaps
* `scan_gap`, `scan_append` — the cut of blanks, and of a part, in front of a text
-/

namespace Sentential

open Text

/-! ## Parts -/

/-- A part as the cut makes them: a word, a glyph of two characters, or a single other character. -/
inductive Lexical : Token → Prop where
  | word {part : Token} (h : IsWord part) : Lexical part
  | double {c d : Char} (h : isDoubleGlyph c d = true) : Lexical [c, d]
  | single {c : Char} (h : isMark c = true) : Lexical [c]

/-- The part ends where the text behind it begins: a word is not followed by a letter, and a single character
    is not the first half of a glyph. -/
def EndsBefore (part : Token) (rest : List Char) : Prop :=
  (IsWord part → EndsWord rest) ∧ ∀ c, part = [c] → ∀ d ∈ rest.head?, isDoubleGlyph c d = false

/-- There are four glyphs of two characters. -/
theorem isDoubleGlyph_cases {P : Char → Char → Prop} {c d : Char} (h : isDoubleGlyph c d = true) (hand : P '&' '&')
    (hwedge : P '/' '\\') (hbars : P '|' '|') (hvee : P '\\' '/') : P c d := by
  simp only [isDoubleGlyph, Bool.or_eq_true, Bool.and_eq_true, beq_iff_eq] at h
  rcases h with ((⟨rfl, rfl⟩ | ⟨rfl, rfl⟩) | ⟨rfl, rfl⟩) | ⟨rfl, rfl⟩
  · exact hand
  · exact hwedge
  · exact hbars
  · exact hvee

/-- Both halves of a glyph of two characters are marks. -/
theorem isMark_of_isDoubleGlyph {c d : Char} (h : isDoubleGlyph c d = true) :
    isMark c = true ∧ isMark d = true := by
  apply isDoubleGlyph_cases h <;> decide

/-- A character that is no mark begins no glyph of two characters. -/
theorem isDoubleGlyph_of_left {c : Char} (hc : isMark c = false) (d : Char) : isDoubleGlyph c d = false := by
  rw [← Bool.not_eq_true] at hc ⊢
  intro h
  exact hc (isMark_of_isDoubleGlyph h).1

/-- A character that is no mark ends no glyph of two characters. -/
theorem isDoubleGlyph_of_right {d : Char} (hd : isMark d = false) (c : Char) : isDoubleGlyph c d = false := by
  rw [← Bool.not_eq_true] at hd ⊢
  intro h
  exact hd (isMark_of_isDoubleGlyph h).2

/-- A part is not empty and does not start with a blank. -/
theorem Lexical.exists_head {part : Token} (h : Lexical part) :
    ∃ c rest, part = c :: rest ∧ isBlank c = false := by
  cases h with
  | word hword =>
    cases part with
    | nil => exact absurd rfl hword.1
    | cons c rest =>
      refine ⟨c, rest, rfl, ?_⟩
      rw [← Bool.not_eq_true]
      intro hblank
      have hletter := hword.2 c (by simp)
      rw [isAlphabetic_of_isBlank hblank] at hletter
      exact absurd hletter (by simp)
  | double hdouble => exact ⟨_, _, rfl, (isMark_iff.mp (isMark_of_isDoubleGlyph hdouble).1).2⟩
  | single hmark => exact ⟨_, _, rfl, (isMark_iff.mp hmark).2⟩

/-- What is written behind a part is written on its own, and does not prolong the part. -/
theorem Written.cut {gap rest : List Char} {part : Token} {parts : List Token}
    (hgap : ∀ c ∈ gap, isBlank c = true) (hpart : Lexical part)
    (h : Written (part :: parts) (gap ++ part ++ rest)) :
    (IsWord part → EndsWord rest) ∧ Written parts rest := by
  obtain ⟨c, more, rfl, hc⟩ := hpart.exists_head
  -- a gap is all that stands before the first character that is no blank
  have hblanks : ∀ g after : List Char, (∀ b ∈ g, isBlank b = true) →
      (g ++ (c :: more) ++ after).takeWhile isBlank = g := by
    intro g after hg
    rw [List.append_assoc, List.takeWhile_append_of_pos hg, List.cons_append,
      List.takeWhile_cons_of_neg (by simp [hc]), List.append_nil]
  generalize htext : gap ++ (c :: more) ++ rest = cs at h
  cases h with
  | @part gap' _ _ rest' hgap' hend hrest =>
    have hsame : gap = gap' := by rw [← hblanks gap rest hgap, htext, hblanks gap' rest' hgap']
    subst hsame
    obtain rfl := List.append_cancel_left htext
    exact ⟨hend, hrest⟩

/-! ## One character -/

namespace Scan

variable {s : Scan} {c : Char}

@[simp] theorem tokens_consPart (part : Token) (s : Scan) : (s.consPart part).tokens = part :: s.tokens := rfl

@[simp] theorem tokens_consBlank (c : Char) (s : Scan) : (s.consBlank c).tokens = s.tokens := by
  obtain ⟨lexemes, tail⟩ := s
  cases lexemes <;> rfl

theorem consChar_blank (hc : isBlank c = true) : s.consChar c = s.consBlank c := by
  rw [consChar, if_pos hc]

theorem consChar_letter (hc : isAlphabetic c = true) : s.consChar c = s.consLetter c := by
  have hblank : ¬ isBlank c = true := by
    intro h
    rw [isAlphabetic_of_isBlank h] at hc
    exact absurd hc (by simp)
  rw [consChar, if_neg hblank, if_pos hc]

theorem consChar_mark (hc : isMark c = true) : s.consChar c = s.consPart [c] := by
  obtain ⟨hletter, hblank⟩ := isMark_iff.mp hc
  rw [consChar, if_neg (by simp [hblank]), if_neg (by simp [hletter])]

/-- The first lexeme is a word without a gap. -/
def continues (s : Scan) : Bool := s.lexemes.head?.any Lexeme.continues

/-- A letter in front of a text that goes on with no letter is a word of its own. -/
theorem consLetter_of_not_continues (h : s.continues = false) : s.consLetter c = s.consPart [c] := by
  obtain ⟨lexemes, tail⟩ := s
  cases lexemes with
  | nil => rfl
  | cons l rest =>
    have hl : l.continues = false := h
    simp [consLetter, hl]

/-- A letter in front of a word joins it. -/
theorem consLetter_consPart {part : Token} (h : IsWord part) :
    (s.consPart part).consLetter c = s.consPart (c :: part) := by
  have hhead : part.head?.any isAlphabetic = true := by
    obtain ⟨hne, hall⟩ := h
    cases part with
    | nil => exact absurd rfl hne
    | cons d rest => exact hall d (by simp)
  simp [consLetter, consPart, Lexeme.continues, hhead]

/-- With a character in front, a text goes on with a letter exactly when the character is one. -/
theorem continues_consChar (c : Char) (s : Scan) : (s.consChar c).continues = isAlphabetic c := by
  obtain ⟨lexemes, tail⟩ := s
  by_cases hblank : isBlank c = true
  · rw [consChar_blank hblank, isAlphabetic_of_isBlank hblank]
    cases lexemes <;> simp [consBlank, continues, Lexeme.continues]
  · by_cases hletter : isAlphabetic c = true
    · rw [consChar_letter hletter, hletter]
      cases lexemes with
      | nil => simp [consLetter, consPart, continues, Lexeme.continues, hletter]
      | cons l rest =>
        simp only [consLetter]
        split <;> simp [consPart, continues, Lexeme.continues, hletter]
    · have hmark : isMark c = true := by simp [isMark, hblank, hletter]
      rw [consChar_mark hmark]
      simp [consPart, continues, Lexeme.continues]

/-- A character in front of a text leaves the gaps blank. -/
theorem gaps_consChar {c : Char} {s : Scan} (h : ∀ l ∈ s.lexemes, ∀ b ∈ l.gap, isBlank b = true) :
    ∀ l ∈ (s.consChar c).lexemes, ∀ b ∈ l.gap, isBlank b = true := by
  obtain ⟨lexemes, tail⟩ := s
  by_cases hblank : isBlank c = true
  · rw [consChar_blank hblank]
    cases lexemes with
    | nil => simp [consBlank]
    | cons first rest => simpa [consBlank, hblank] using h
  · by_cases hletter : isAlphabetic c = true
    · rw [consChar_letter hletter]
      cases lexemes with
      | nil => simp [consLetter, consPart]
      | cons first rest =>
        by_cases hjoins : first.continues = true
        · simpa [consLetter, hjoins] using fun l hl => h l (by simp [hl])
        · simpa [consLetter, hjoins, consPart] using h
    · rw [consChar_mark (by simp [isMark, hblank, hletter])]
      simpa [consPart] using h

end Scan

/-- The cut of a text with a character in front that begins no glyph of two characters. -/
theorem scan_cons {c : Char} {cs : List Char} (h : ∀ d ∈ cs.head?, isDoubleGlyph c d = false) :
    scan (c :: cs) = (scan cs).consChar c := by
  cases cs with
  | nil => rfl
  | cons d rest => rw [scan, if_neg (by simp [h d (by simp)])]

/-- The first lexeme of a text is a word without a gap exactly when the text goes on with a letter. -/
theorem continues_scan (cs : List Char) : (scan cs).continues = cs.head?.any isAlphabetic := by
  cases cs with
  | nil => rfl
  | cons c rest =>
    by_cases h : ∀ d ∈ rest.head?, isDoubleGlyph c d = false
    · rw [scan_cons h, Scan.continues_consChar]
      rfl
    · -- the text starts with a glyph of two characters, so with no letter
      cases rest with
      | nil => exact absurd (by simp) h
      | cons d rest =>
        have hdouble : isDoubleGlyph c d = true := by simpa using h
        have hletter := (isMark_iff.mp (isMark_of_isDoubleGlyph hdouble).1).1
        rw [scan, if_pos hdouble]
        simp [Scan.continues, Scan.consPart, Lexeme.continues, hletter]

theorem continues_scan_eq_false {cs : List Char} (h : EndsWord cs) : (scan cs).continues = false := by
  rw [continues_scan]
  cases cs with
  | nil => rfl
  | cons c rest => exact h c (by simp)

/-! ## The parts found, written out, are the text -/

/-- A letter in front of a writing: it joins a word that it touches, and is a word of its own otherwise. -/
theorem written_consLetter (c : Char) {cs : List Char}
    (h : Written (scan cs).tokens cs) : Written ((scan cs).consLetter c).tokens (c :: cs) := by
  have hcontinues := continues_scan cs
  by_cases hstart : (scan cs).continues = true
  · -- the first part begins where the text begins, so the letter goes in front of it
    obtain ⟨l, rest, hlexemes⟩ : ∃ l rest, (scan cs).lexemes = l :: rest := by
      cases hl : (scan cs).lexemes with
      | nil => simp [Scan.continues, hl] at hstart
      | cons l rest => exact ⟨l, rest, rfl⟩
    have hl : l.continues = true := by simpa [Scan.continues, hlexemes] using hstart
    have htokens : (scan cs).tokens = l.part :: rest.map Lexeme.part := by simp [Scan.tokens, hlexemes]
    rw [htokens] at h
    rw [hstart] at hcontinues
    have hjoined : ((scan cs).consLetter c).tokens = (c :: l.part) :: rest.map Lexeme.part := by
      simp [Scan.consLetter, hlexemes, hl, Scan.tokens]
    rw [hjoined]
    have hne : l.part ≠ [] := by
      intro hnil
      simp [Lexeme.continues, hnil] at hl
    cases h with
    | @part gap _ _ after hgap hend hrest =>
      -- a gap would start the text with a blank
      have hnogap : gap = [] := by
        cases gap with
        | nil => rfl
        | cons b gap =>
          have hb := isAlphabetic_of_isBlank (hgap b (by simp))
          simp [hb] at hcontinues
      subst hnogap
      refine hrest.cons (c :: l.part) ?_
      intro hword
      exact hend ⟨hne, fun d hd => hword.2 d (by simp [hd])⟩
  · -- the text begins with a gap, a mark or nothing, so the letter ends where it stands
    have hstart : (scan cs).continues = false := by simpa using hstart
    rw [Scan.consLetter_of_not_continues hstart, Scan.tokens_consPart]
    refine h.cons [c] ?_
    intro _ d hd
    rw [hstart, hd] at hcontinues
    exact hcontinues.symm

/-- **The cut is a writing of its parts.** -/
theorem written_scan (cs : List Char) : Written (scan cs).tokens cs := by
  have hcons : ∀ c cs, Written (scan cs).tokens cs → Written ((scan cs).consChar c).tokens (c :: cs) := by
    intro c cs h
    by_cases hblank : isBlank c = true
    · rw [Scan.consChar_blank hblank, Scan.tokens_consBlank]
      exact h.blank hblank
    · by_cases hletter : isAlphabetic c = true
      · rw [Scan.consChar_letter hletter]
        exact written_consLetter c h
      · have hmark : isMark c = true := by simp [isMark, hblank, hletter]
        rw [Scan.consChar_mark hmark, Scan.tokens_consPart]
        exact h.mark hmark
  fun_induction scan cs with
  | case1 => exact .tail (by simp)
  | case2 c => exact hcons c [] (.tail (by simp))
  | case3 c d rest h ih =>
    have hmark := (isMark_of_isDoubleGlyph h).1
    exact ih.cons [c, d] fun hword => absurd hword (not_isWord_of_isMark hmark)
  | case4 c d rest h ih => exact hcons c (d :: rest) ih

/-- The gaps between the parts are blanks. -/
theorem gaps_scan (cs : List Char) : ∀ l ∈ (scan cs).lexemes, ∀ b ∈ l.gap, isBlank b = true := by
  fun_induction scan cs with
  | case1 => simp
  | case2 c => exact Scan.gaps_consChar (by simp)
  | case3 c d rest h ih => simpa [Scan.consPart] using ih
  | case4 c d rest h ih => exact Scan.gaps_consChar ih

/-! ## A part in front of a text is cut off whole -/

/-- Blanks in front of a text change no part. -/
theorem scan_gap {gap : List Char} (hgap : ∀ c ∈ gap, isBlank c = true) (cs : List Char) :
    (scan (gap ++ cs)).tokens = (scan cs).tokens := by
  induction gap with
  | nil => rfl
  | cons c gap ih =>
    have hc := hgap c (by simp)
    have hdouble : ∀ d ∈ (gap ++ cs).head?, isDoubleGlyph c d = false := by
      intro d _
      exact isDoubleGlyph_of_left (isMark_of_isBlank hc) d
    rw [List.cons_append, scan_cons hdouble, Scan.consChar_blank hc, Scan.tokens_consBlank]
    exact ih fun d hd => hgap d (by simp [hd])

/-- A word in front of a text that does not prolong it. -/
theorem scan_word {part : Token} {cs : List Char} (hword : IsWord part) (hend : EndsWord cs) :
    scan (part ++ cs) = (scan cs).consPart part := by
  induction part with
  | nil => exact absurd rfl hword.1
  | cons c rest ih =>
    have hc := hword.2 c (by simp)
    have hdouble : ∀ d ∈ (rest ++ cs).head?, isDoubleGlyph c d = false := by
      intro d _
      exact isDoubleGlyph_of_left (isMark_of_isAlphabetic hc) d
    rw [List.cons_append, scan_cons hdouble, Scan.consChar_letter hc]
    -- the last letter stands before the text, every other before a word
    by_cases hrest : rest = []
    · subst hrest
      exact Scan.consLetter_of_not_continues (continues_scan_eq_false hend)
    · have hrestword : IsWord rest := ⟨hrest, fun d hd => hword.2 d (by simp [hd])⟩
      rw [ih hrestword, Scan.consLetter_consPart hrestword]

/-- **A part in front of a text that does not prolong it is cut off whole.** -/
theorem scan_append {part : Token} {cs : List Char} (hpart : Lexical part) (hend : EndsBefore part cs) :
    scan (part ++ cs) = (scan cs).consPart part := by
  cases hpart with
  | word hword => exact scan_word hword (hend.1 hword)
  | @double c d hdouble =>
    show scan (c :: d :: cs) = _
    rw [scan, if_pos hdouble]
  | @single c hmark =>
    show scan (c :: cs) = _
    rw [scan_cons (hend.2 c rfl), Scan.consChar_mark hmark]

end Sentential
