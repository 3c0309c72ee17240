import Sentential.Error
import Sentential.Sentence.Lexeme

/-!
# `Sentential.Sentence.Parser` — reading a sentence

A sentence is read from left to right, one written part at a time, with a stack of what is still open. At
every moment either an **operand** must come next (a negation, an opening bracket or a symbol) or an operand
has just ended and an **operator** may follow (a connective, or a closing bracket if a group is open, or the
end if none is). The first part that does not fit is the fault, and what would have fitted depends on the
moment alone.

A connective takes as its left operand everything that binds tighter; chains of one connective nest to the
right. The word `v` is a disjunction where an operator may follow and a symbol where an operand must come.

## Contents
* `Frame`, `Reader` — what is still open, and the two kinds of moment
* `collapse`, `closeNegations` — ending what a following part ends
* `Reader.step`, `Reader.run`, `Reader.finish?` — one part, many parts, the end
* `Sentence.parse` — from a text; `Statement.parse` — only what it states
-/

namespace Sentential

open Text

/-! ## What is still open -/

/-- Something begun whose end is not read yet. -/
inductive Frame where
  /-- A negation that waits for its operand. -/
  | negation (glyph : String)
  /-- A connective with its left operand, waiting for the right one. -/
  | left (operand : Sentence) (connective : Connective) (glyph : String)
  /-- A group that waits for its closing bracket. -/
  | group (opener : Char)

/-- A frame that is an open group. -/
def Frame.isGroup : Frame → Bool
  | group _ => true
  | _ => false

/-- Pending connectives of a class, from the innermost outwards, ended by the operand on their right. -/
def collapse (ends : Connective → Bool) : List Frame → Sentence → List Frame × Sentence
  | .left l c g :: stack, r =>
    if ends c then collapse ends stack (.binary c g l r) else (.left l c g :: stack, r)
  | stack, r => (stack, r)

/-- Pending negations ended by their operand. -/
def closeNegations : List Frame → Sentence → List Frame × Sentence
  | .negation g :: stack, t => closeNegations stack (.negation g t)
  | stack, t => (stack, t)

/-! ## The reader -/

/-- A moment of reading, with the open frames from the innermost outwards. -/
inductive Reader where
  /-- An operand must come next. -/
  | operand (stack : List Frame)
  /-- The operand `last` has just ended. -/
  | operator (stack : List Frame) (last : Sentence)

namespace Reader

/-- The moment before a text. -/
def start : Reader := operand []

/-- The moment after an operand that is no binary sentence. -/
def completed (stack : List Frame) (t : Sentence) : Reader :=
  let (stack, t) := closeNegations stack t
  operator stack t

/-- The names of what could come next. -/
def expected : Reader → List String
  | operand _ => ["negation", "opening bracket", "identifier"]
  | operator stack _ =>
    Connective.all.map Connective.name ++
      [if stack.any Frame.isGroup then "closing bracket" else "end of input"]

/-- The moment after one more part, unless the part does not fit. -/
def step : Reader → Token → Option Reader
  | operand stack, part =>
    let glyph := String.ofList part
    if negationGlyphs.contains glyph then some (operand (.negation glyph :: stack))
    else match part with
      | [] => none
      | c :: rest =>
        if rest.isEmpty && openingBrackets.contains c then some (operand (.group c :: stack))
        else if part.all isAlphabetic then some (completed stack (.symbol ⟨glyph⟩))
        else none
  | operator stack last, part =>
    let glyph := String.ofList part
    match Connective.ofGlyph? glyph with
    | some c =>
      let (stack, l) := collapse (fun d => d.looseness < c.looseness) stack last
      some (operand (.left l c glyph :: stack))
    | none =>
      match part with
      | [c] =>
        if closingBrackets.contains c then
          match collapse (fun _ => true) stack last with
          | (.group o :: stack, inner) => some (completed stack (.group o inner c))
          | _ => none
        else none
      | _ => none

/-- The moment after lexemes that stand from a position on, or the first one that does not fit. -/
def run (r : Reader) (position : Nat) : List Lexeme → Except SyntaxError Reader
  | [] => .ok r
  | l :: rest =>
    match r.step l.part with
    | some r => r.run (position + l.gap.length + l.part.length) rest
    | none => .error ⟨position + l.gap.length, r.expected⟩

/-- The sentence read, if it may end at this moment. -/
def finish? : Reader → Option Sentence
  | operand _ => none
  | operator stack last =>
    match collapse (fun _ => true) stack last with
    | ([], t) => some t
    | _ => none

end Reader

/-! ## Texts -/

/-- The sentence written in the characters of a text. -/
def Sentence.parseChars (cs : List Char) : Except SyntaxError Sentence :=
  match Reader.start.run 0 (scan cs).lexemes with
  | .error fault => .error fault
  | .ok r =>
    match r.finish? with
    | some t => .ok t
    | none => .error ⟨cs.length, r.expected⟩

/-- The sentence written in a text. -/
def Sentence.parse (source : String) : Except SyntaxError Sentence :=
  Sentence.parseChars source.toList

/-- What the sentence written in a text states. -/
def Statement.parse (source : String) : Except SyntaxError Statement :=
  (Sentence.parse source).map Sentence.statement

end Sentential
