import Sentential.Formula.Printer

/-!
# `Sentential.Sentence.Basic` — sentences as they are written

A sentence is a formula together with the way it was written: which glyph stands for each operator and
which brackets surround a group. Two bracket characters of one group need not belong to one family, so a
group keeps both. Forgetting the writing gives the `statement`; the headers of a truth table need the
writing.

## Contents
* `Sentence` — the tree
* `statement`, `symbols` — what it states, and of which symbols
* `tokens` — its written parts from left to right
* `text` — its text with normal spacing
* `openingBrackets`, `closingBrackets`
-/

namespace Sentential

/-- The characters that open a group. -/
def openingBrackets : List Char := ['(', '[', '\x7b']

/-- The characters that close a group, whichever opened it. -/
def closingBrackets : List Char := [')', ']', '\x7d']

/-- A sentence as it is written. -/
inductive Sentence where
  | symbol (symbol : Symbol)
  | negation (glyph : String) (operand : Sentence)
  | binary (connective : Connective) (glyph : String) (left right : Sentence)
  | group (opener : Char) (inner : Sentence) (closer : Char)
  deriving DecidableEq

/-- A written part of a sentence: a symbol's name, a glyph or a bracket, as characters. -/
abbrev Token := List Char

namespace Sentence

/-- What the sentence states, whatever its spelling. -/
def statement : Sentence → Statement
  | symbol s => .atom s
  | negation _ t => .negation t.statement
  | binary c _ l r => .binary c l.statement r.statement
  | group _ t _ => t.statement

/-- The distinct symbols by first occurrence. -/
def symbols (t : Sentence) : List Symbol := t.statement.symbols

/-- The written parts from left to right. -/
def tokens : Sentence → List Token
  | symbol s => [s.name.toList]
  | negation g t => g.toList :: t.tokens
  | binary _ g l r => l.tokens ++ g.toList :: r.tokens
  | group o t c => [o] :: t.tokens ++ [[c]]

/-- The text with a space on each side of a binary glyph and none elsewhere. -/
def text : Sentence → String
  | symbol s => s.name
  | negation g t => g ++ t.text
  | binary _ g l r => l.text ++ " " ++ g ++ " " ++ r.text
  | group o t c => o.toString ++ t.text ++ c.toString

end Sentence

end Sentential
