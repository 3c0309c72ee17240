import Sentential.Assignment
import Sentential.Formula.Basic

/-!
# `Sentential.Interpretation` — one row of a table, read as an assignment

An interpretation gives truth values to symbols. Row `r` of a table over `n` symbols is the interpretation
that reads `r` as a binary number of `n` digits, the first symbol being the most significant one and a zero
digit standing for *true*: the first row makes everything true and the leftmost symbol varies slowest.

## Contents
* `Interpretation`, `forRow` — interpretations and the one of a row
* `evaluate` — the value of a statement, if all its symbols have one
* `text` — an interpretation in braces, false symbols negated
-/

namespace Sentential

/-- Truth values given to symbols. -/
abbrev Interpretation := Assignment Bool

namespace Interpretation

/-- The values on a row, paired with the symbols. -/
def rowPairs (symbols : List Symbol) (row : Nat) : List (Symbol × Bool) :=
  symbols.zipIdx.map fun (s, i) => (s, (row >>> (symbols.length - i - 1)) &&& 1 == 0)

/-- The interpretation that a row stands for. -/
def forRow (symbols : List Symbol) (row : Nat) : Interpretation :=
  Assignment.ofList (rowPairs symbols row)

/-- The value of a statement, if every symbol of it has one. -/
def evaluate (i : Interpretation) : Statement → Option Bool
  | .atom s => i.get? s
  | .negation f => (evaluate i f).map (!·)
  | .binary c f g =>
    match evaluate i f, evaluate i g with
    | some p, some q => some (c.apply p q)
    | _, _ => none

/-- The symbols in braces, the false ones with a negation sign. -/
def text (i : Interpretation) : String :=
  "\x7b" ++ ", ".intercalate (i.pairs.map fun (s, v) => (if v then "" else "¬") ++ s.name) ++ "\x7d"

end Interpretation

end Sentential
