import Sentential.Sentence.Parser

/-!
# `Sentential.Sentence.Descent` — reading a sentence by trial

The grammar can be read from its loosest connective down: what one connective joins are operands of the next
tighter one, and at the bottom a negation, a group and a symbol are tried in turn. What fails is given up, and
something else is tried from the same place; a connective whose right operand fails is given back to the text.

So a failure does not say what is wrong with a text, for it may be that of the last thing tried. This is kept in
a **record**, which is not taken back with the text: the furthest place where a part was missing, in bytes, and
the names of all parts that were looked for there, each once.

`Sentence.parse` reads with a stack and tries nothing. The two read the same sentences and report the same
faults, which `Sentential.Proofs.Descent` proves of all texts.

## Contents
* `Record`, `Record.note` — the furthest place where something was missing
* `Piece` — something read in front of a shorter text
* `glyphAt`, `characterAt`, `wordAt`, `token` — parts, with the blanks before them
* `operand`, `group`, `chain` — the grammar
* `Sentence.descend` — from a text
-/

namespace Sentential

open Text

namespace Descent

/-! ## The record -/

/-- The furthest place at which a part was missing, and the names of the parts looked for there. -/
structure Record where
  furthest : Nat := 0
  expected : List String := []

/-- The record when a place is reached: one that lies further on makes all names void. -/
def Record.reach (record : Record) (place : Nat) : Record :=
  if record.furthest < place then ⟨place, []⟩ else record

/-- A part is missing at a place. -/
def Record.note (record : Record) (place : Nat) (name : String) : Record :=
  let record := record.reach place
  if place = record.furthest ∧ name ∉ record.expected then ⟨place, record.expected ++ [name]⟩ else record

/-! ## Parts -/

/-- Something read in front of a text, and the shorter text behind it. -/
structure Piece (α : Type) (cs : List Char) where
  value : α
  rest : List Char
  shorter : rest.length < cs.length

/-- The text begins with a glyph. If the glyph ends in a letter, no letter may follow. -/
def BeginsWith (glyph cs : List Char) : Prop :=
  glyph ≠ [] ∧ glyph <+: cs ∧
    ¬(glyph.getLast?.any isAlphabetic = true ∧ (cs.drop glyph.length).head?.any isAlphabetic = true)

instance (glyph cs : List Char) : Decidable (BeginsWith glyph cs) :=
  inferInstanceAs (Decidable (_ ∧ _ ∧ _))

/-- Behind a glyph the text is shorter. -/
theorem BeginsWith.shorter {glyph cs : List Char} (h : BeginsWith glyph cs) :
    (cs.drop glyph.length).length < cs.length := by
  have hpos := List.length_pos_iff.mpr h.1
  have hle := h.2.1.length_le
  rw [List.length_drop]
  omega

/-- The first of several glyphs that the text begins with. -/
def glyphAt (glyphs : List String) (cs : List Char) : Option (Piece String cs) :=
  match h : glyphs.find? fun g => BeginsWith g.toList cs with
  | some g =>
    have hg : BeginsWith g.toList cs := by simpa using List.find?_some h
    some ⟨g, cs.drop g.toList.length, hg.shorter⟩
  | none => none

/-- A character of a class. -/
def characterAt (ofClass : List Char) : (cs : List Char) → Option (Piece Char cs)
  | [] => none
  | c :: rest => if c ∈ ofClass then some ⟨c, rest, Nat.lt_succ_self _⟩ else none

/-- A run of letters, as long as there are any. -/
def wordAt : (cs : List Char) → Option (Piece Token cs)
  | [] => none
  | c :: rest =>
    if isAlphabetic c then
      some ⟨c :: rest.takeWhile isAlphabetic, rest.dropWhile isAlphabetic,
        Nat.lt_succ_of_le (List.dropWhile_sublist _).length_le⟩
    else none

/-- The text without the blanks in front. -/
def afterBlanks (cs : List Char) : List Char := cs.dropWhile isBlank

theorem length_afterBlanks_le (cs : List Char) : (afterBlanks cs).length ≤ cs.length :=
  (List.dropWhile_sublist _).length_le

/-- The length of a text in bytes. -/
def bytes : List Char → Nat
  | [] => 0
  | c :: cs => c.utf8Size + bytes cs

section

variable (size : Nat)

/-- The place of the next part of a text: the bytes in front of it, in a whole of so many bytes. -/
def place (cs : List Char) : Nat := size - bytes (afterBlanks cs)

/-- A part with a name, behind blanks. If it is missing, this is noted at its place. -/
def token {α : Type} (name : String) (read : (cs : List Char) → Option (Piece α cs)) (cs : List Char)
    (record : Record) : Option (Piece α cs) × Record :=
  match read (afterBlanks cs) with
  | some p => (some ⟨p.value, p.rest, Nat.lt_of_lt_of_le p.shorter (length_afterBlanks_le cs)⟩, record)
  | none => (none, record.note (place size cs) name)

/-! ## The grammar -/

/-- The next tighter connective. Operands of the tightest contain none outside groups. -/
def tighter? : Connective → Option Connective
  | .conjunction => none
  | .disjunction => some .conjunction
  | .conditional => some .disjunction
  | .biconditional => some .conditional

/-- The level of what no connective looser than this one joins. -/
def level : Option Connective → Nat
  | none => 0
  | some c => c.looseness + 1

/-- The operands of a connective are of the level below its own. -/
theorem level_tighter? (c : Connective) : level (tighter? c) = c.looseness := by
  cases c <;> rfl

/-- A symbol. -/
def symbol (cs : List Char) (record : Record) : Option (Piece Sentence cs) × Record :=
  match token size "identifier" wordAt cs record with
  | (some w, record) => (some ⟨.symbol ⟨String.ofList w.value⟩, w.rest, w.shorter⟩, record)
  | (none, record) => (none, record)

mutual

/-- What a connective and tighter ones join; or, below all of them, a negation, a group or a symbol. -/
def operand (loosest : Option Connective) (cs : List Char) (record : Record) :
    Option (Piece Sentence cs) × Record :=
  match loosest with
  | none =>
    match token size "negation" (glyphAt negationGlyphs) cs record with
    | (some g, record) =>
      match operand none g.rest record with
      | (some t, record) =>
        (some ⟨.negation g.value t.value, t.rest, Nat.lt_trans t.shorter g.shorter⟩, record)
      | (none, record) => group cs record
    | (none, record) => group cs record
  | some c =>
    match operand (tighter? c) cs record with
    | (some first, record) =>
      let (whole, record) := chain c first record
      (some whole, record)
    | (none, record) => (none, record)
termination_by (cs.length, level loosest + 1)
decreasing_by
  · exact Prod.Lex.left _ _ g.shorter
  · exact Prod.Lex.right _ (Nat.succ_pos _)
  · exact Prod.Lex.right _ (Nat.succ_pos _)
  · exact Prod.Lex.right _ (by rw [level_tighter?]; exact Nat.lt_succ_self _)
  · exact Prod.Lex.left _ _ first.shorter

/-- A group, whichever bracket closes it; or a symbol. -/
def group (cs : List Char) (record : Record) : Option (Piece Sentence cs) × Record :=
  match token size "opening bracket" (characterAt openingBrackets) cs record with
  | (some o, record) =>
    match operand (some .biconditional) o.rest record with
    | (some t, record) =>
      match token size "closing bracket" (characterAt closingBrackets) t.rest record with
      | (some c, record) =>
        (some ⟨.group o.value t.value c.value, c.rest,
          Nat.lt_trans c.shorter (Nat.lt_trans t.shorter o.shorter)⟩, record)
      | (none, record) => symbol size cs record
    | (none, record) => symbol size cs record
  | (none, record) => symbol size cs record
termination_by (cs.length, 0)
decreasing_by exact Prod.Lex.left _ _ o.shorter

/-- An operand joined with those that follow it, each behind a glyph of the connective, nested to the right.
    A glyph that no operand follows is given back. -/
def chain (c : Connective) {cs : List Char} (first : Piece Sentence cs) (record : Record) :
    Piece Sentence cs × Record :=
  match token size c.name (glyphAt c.glyphs) first.rest record with
  | (some g, record) =>
    match operand (tighter? c) g.rest record with
    | (some next, record) =>
      let (more, record) := chain c next record
      (⟨.binary c g.value first.value more.value, more.rest,
        Nat.lt_trans more.shorter (Nat.lt_trans g.shorter first.shorter)⟩, record)
    | (none, record) => (first, record)
  | (none, record) => (first, record)
termination_by (first.rest.length, 0)
decreasing_by
  · exact Prod.Lex.left _ _ g.shorter
  · exact Prod.Lex.left _ _ (Nat.lt_trans next.shorter g.shorter)

end

end

/-! ## Faults -/

/-- The characters within so many bytes of a text. -/
def charactersWithin : (size : Nat) → List Char → Nat
  | _, [] => 0
  | size, c :: cs => if c.utf8Size ≤ size then charactersWithin (size - c.utf8Size) cs + 1 else 0

/-- The fault that a record leaves in a text, its place in characters. -/
def Record.fault (record : Record) (source : List Char) : SyntaxError :=
  ⟨charactersWithin record.furthest source, record.expected⟩

end Descent

open Descent in
/-- The sentence written in a text, read by trial. -/
def Sentence.descend (source : String) : Except SyntaxError Sentence :=
  let cs := source.toList
  match operand (bytes cs) (some .biconditional) cs {} with
  | (none, record) => .error (record.fault cs)
  | (some t, record) =>
    if (afterBlanks t.rest).isEmpty then .ok t.value
    else .error ((record.note (place (bytes cs) t.rest) "end of input").fault cs)

end Sentential
