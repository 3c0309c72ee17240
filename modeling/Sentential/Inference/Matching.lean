import Sentential.Assignment
import Sentential.Draft

/-!
# `Sentential.Inference.Matching` — patterns against statements

A pattern is a statement whose symbols are read as variables. Matching a pattern against a statement finds
what its variables stand for: an unbound variable is bound to the whole fragment that it meets, a bound one
must meet its binding again. Operands are matched in order, never exchanged.

Several patterns are matched against as many statements by searching for an assignment of patterns to
statements: the first statement is tried with each pattern in turn, and the first assignment that can be
completed is taken.

## Contents
* `Bindings` — statements given to variables, with `text`
* `matchPattern` — one pattern, one statement
* `picks`, `matchPremises` — several patterns, several statements
* `substitute` — a pattern with its bound variables replaced, the others left as placeholders
-/

namespace Sentential

/-- Statements given to pattern variables. -/
abbrev Bindings := Assignment Statement

/-- The bindings in braces, an arrow from each variable to its statement. -/
def Bindings.text (b : Bindings) : String :=
  "\x7b" ++ ", ".intercalate (b.pairs.map fun (x, s) => x.name ++ "←" ++ s.text) ++ "\x7d"

/-! ## One pattern -/

/-- The bindings extended so that the pattern becomes the statement, if they can be. -/
def matchPattern : Statement → Statement → Bindings → Option Bindings
  | .atom x, s, b =>
    match b.get? x with
    | some bound => if bound = s then some b else none
    | none => some (b.insert x s)
  | .negation p, .negation s, b => matchPattern p s b
  | .binary c p q, .binary d s t, b =>
    if c = d then
      match matchPattern p s b with
      | some b => matchPattern q t b
      | none => none
    else none
  | _, _, _ => none

/-- The pattern with every bound variable replaced by its statement and every other by a placeholder. -/
def substitute (pattern : Statement) (b : Bindings) : Draft :=
  pattern.bind fun x =>
    match b.get? x with
    | some s => Draft.ofStatement s
    | none => Draft.placeholder

/-! ## Several patterns -/

/-- Every way to pick one member of a list, with the members that remain. -/
def picks {α : Type} : List α → List (α × List α)
  | [] => []
  | a :: rest => (a, rest) :: (picks rest).map fun (b, others) => (b, a :: others)

/-- The bindings extended by the first assignment of premises to statements that can be completed. -/
def matchPremises : List Statement → List Statement → Bindings → Option Bindings
  | premises, [], b => if premises.isEmpty then some b else none
  | premises, s :: rest, b =>
    (picks premises).findSome? fun (premise, others) =>
      match matchPattern premise s b with
      | some b => matchPremises others rest b
      | none => none

end Sentential
