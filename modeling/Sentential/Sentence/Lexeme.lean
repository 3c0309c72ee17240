import Sentential.Sentence.Basic
import Sentential.Text.Alphabetic
import Sentential.Text.Blank

/-!
# `Sentential.Sentence.Lexeme` — a text cut into written parts

A text is a sequence of **lexemes**, each the blanks before a part and the part itself, and the blanks at
its end. A part is a maximal run of letters (a *word*), one of the glyphs of two characters, or a single
character of any other kind. What a part means is not decided here: `v` is a word whether it is read as a
symbol or as a disjunction.

## Contents
* `Lexeme`, `Scan` — the cut text
* `scan` — the cut
* `Scan.chars`, `chars_scan` — nothing is lost: the parts and blanks make up the text again
-/

namespace Sentential

open Text

/-- A written part with the blanks before it. -/
structure Lexeme where
  gap : List Char
  part : Token

namespace Lexeme

/-- The characters of the lexeme. -/
def chars (l : Lexeme) : List Char := l.gap ++ l.part

/-- The lexeme is a word that starts where it starts: it has no blanks before it and begins with a
    letter. -/
def continues (l : Lexeme) : Bool :=
  l.gap.isEmpty && l.part.head?.any isAlphabetic

end Lexeme

/-- A cut text: its lexemes and the blanks after the last one. -/
structure Scan where
  lexemes : List Lexeme
  tail : List Char

namespace Scan

/-- The characters of the text. -/
def chars (s : Scan) : List Char := s.lexemes.flatMap Lexeme.chars ++ s.tail

/-- The written parts without the blanks. -/
def tokens (s : Scan) : List Token := s.lexemes.map Lexeme.part

/-- A text with a part in front. -/
def consPart (part : Token) (s : Scan) : Scan :=
  ⟨⟨[], part⟩ :: s.lexemes, s.tail⟩

/-- A text with a letter in front, which joins a word that it touches. -/
def consLetter (c : Char) (s : Scan) : Scan :=
  match s.lexemes with
  | [] => s.consPart [c]
  | l :: rest => if l.continues then ⟨⟨[], c :: l.part⟩ :: rest, s.tail⟩ else s.consPart [c]

/-- A text with a blank in front. -/
def consBlank (c : Char) (s : Scan) : Scan :=
  match s.lexemes with
  | [] => ⟨[], c :: s.tail⟩
  | l :: rest => ⟨⟨c :: l.gap, l.part⟩ :: rest, s.tail⟩

/-- A text with a character in front that begins no glyph of two characters. -/
def consChar (c : Char) (s : Scan) : Scan :=
  if isBlank c then s.consBlank c
  else if isAlphabetic c then s.consLetter c
  else s.consPart [c]

end Scan

/-- The two characters are a glyph together. -/
def isDoubleGlyph (c d : Char) : Bool :=
  (c == '&' && d == '&') || (c == '/' && d == '\\') || (c == '|' && d == '|') || (c == '\\' && d == '/')

/-- The cut of a text. Glyphs of two characters are found from the left. -/
def scan : List Char → Scan
  | [] => ⟨[], []⟩
  | [c] => Scan.consChar c ⟨[], []⟩
  | c :: d :: rest =>
    if isDoubleGlyph c d then (scan rest).consPart [c, d] else (scan (d :: rest)).consChar c

/-! ## Nothing is lost -/

namespace Scan

theorem chars_consPart (part : Token) (s : Scan) : (s.consPart part).chars = part ++ s.chars := by
  simp [consPart, chars, Lexeme.chars]

theorem chars_consBlank (c : Char) (s : Scan) : (s.consBlank c).chars = c :: s.chars := by
  obtain ⟨lexemes, tail⟩ := s
  cases lexemes <;> simp [consBlank, chars, Lexeme.chars]

theorem chars_consLetter (c : Char) (s : Scan) : (s.consLetter c).chars = c :: s.chars := by
  obtain ⟨lexemes, tail⟩ := s
  cases lexemes with
  | nil => simp [consLetter, chars_consPart]
  | cons l rest =>
    by_cases h : l.continues
    · have hgap : l.gap = [] := by
        simpa [Lexeme.continues] using (Bool.and_eq_true_iff.mp h).1
      simp [consLetter, h, chars, Lexeme.chars, hgap]
    · simp [consLetter, h, chars_consPart]

theorem chars_consChar (c : Char) (s : Scan) : (s.consChar c).chars = c :: s.chars := by
  unfold consChar
  split
  · exact chars_consBlank c s
  · split
    · exact chars_consLetter c s
    · exact chars_consPart [c] s

end Scan

/-- **The cut is lossless.** -/
theorem chars_scan (cs : List Char) : (scan cs).chars = cs := by
  fun_induction scan cs with
  | case1 => rfl
  | case2 c => exact Scan.chars_consChar c _
  | case3 c d rest h ih => rw [Scan.chars_consPart, ih]; rfl
  | case4 c d rest h ih => rw [Scan.chars_consChar, ih]

end Sentential
