import Sentential.Formula.Basic

/-!
# `Sentential.Formula.Printer` — the text of a formula

A formula is printed with one token per connective and a single space on each side of a binary one. An
operand is put in round brackets exactly when it is binary itself, so precedence is never relied on:
`(A & B) & C` and `A & (B & C)` both keep their brackets.

## Contents
* `Leaf` — what a leaf is written as
* `Formula.token` — the token at the root
* `Formula.text` — the whole text
-/

namespace Sentential

/-- Types whose members may stand at the leaves of a printed formula. -/
class Leaf (α : Type) where
  /-- What a leaf is written as. -/
  token : α → String

/-- A symbol is written as its name. -/
instance : Leaf Symbol where
  token := Symbol.name

namespace Formula

variable {α : Type} [Leaf α]

/-- The token at the root. -/
def token : Formula α → String
  | atom a => Leaf.token a
  | negation _ => negationToken
  | binary c _ _ => c.token

/-- Round brackets around the text of an operand that is binary. -/
def bracketed (operand : Formula α) (text : String) : String :=
  if operand.isBinary then "(" ++ text ++ ")" else text

/-- The text of a formula. -/
def text : Formula α → String
  | atom a => Leaf.token a
  | negation f => negationToken ++ f.bracketed f.text
  | binary c f g => f.bracketed f.text ++ " " ++ c.token ++ " " ++ g.bracketed g.text

end Formula

end Sentential
