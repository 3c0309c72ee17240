import Sentential.Formula.Path

/-!
# `Sentential.Error` — what can go wrong

A text may be no sentence (`SyntaxError`), or a sound text may be asked for something that cannot be done
(`LogicError`). Each fault is kept as its cause; the wording is one function of the cause.

## Contents
* `SyntaxError` — where a text stops being a sentence, and what could have stood there
* `SyntaxError.message`, `SyntaxError.caret` — the wording, and a pointer under the place
* `LogicError`, `LogicError.message`
-/

namespace Sentential

/-! ## Texts that are no sentences -/

/-- A text is no sentence: the number of characters before the place of the fault, and the names of what
    could have stood there. -/
structure SyntaxError where
  position : Nat
  expected : List String
  deriving DecidableEq

/-- Alternatives in running text: commas between them, and `or` before the last. -/
def alternatives : List String → String
  | [] => "a statement"
  | [only] => only
  | [next, last] => next ++ " or " ++ last
  | next :: rest => next ++ ", " ++ alternatives rest

namespace SyntaxError

/-- The wording of the fault. -/
def message (e : SyntaxError) : String :=
  s!"Expected {alternatives e.expected} at position {e.position}"

/-- The text with a caret below the place of the fault. -/
def caret (e : SyntaxError) (source : String) : String :=
  source ++ "\n" ++ String.ofList (List.replicate e.position ' ') ++ "^"

/-- The wording with the text and the caret on the lines below. -/
def messageWithCaret (e : SyntaxError) (source : String) : String :=
  e.message ++ "\n" ++ e.caret source

end SyntaxError

/-! ## Requests that cannot be met -/

/-- A path in brackets, its indices separated by commas. -/
def Path.text (path : Path) : String :=
  "[" ++ ", ".intercalate (path.map toString) ++ "]"

/-- Why a request about sentences cannot be met. -/
inductive LogicError where
  | malformed (fault : SyntaxError)
  | sizeLimit (symbols limit : Nat)
  | nothingToJoin
  | fragmentNotFound (path : Path)
  | internal (detail : String)
  deriving DecidableEq

namespace LogicError

/-- The wording of the fault. -/
def message : LogicError → String
  | malformed fault => fault.message
  | sizeLimit symbols limit =>
    s!"{symbols} distinct symbols would need 2^{symbols} rows; the limit is {limit} symbols"
  | nothingToJoin => "A joined table needs at least one statement"
  | fragmentNotFound path => s!"No fragment at path {path.text}"
  | internal detail => s!"Internal invariant violated: {detail}"

/-- The wording of the fault, with the text and a caret below if the fault is at a place in it. -/
def describe (source : String) : LogicError → String
  | malformed fault => fault.messageWithCaret source
  | other => other.message

end LogicError

end Sentential
