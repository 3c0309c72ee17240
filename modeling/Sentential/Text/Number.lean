/-!
# `Sentential.Text.Number` — reading an unsigned 64-bit number

Line numbers, child indices and limits are written in decimal, with an optional `+` in front. The text is
read from the left and the **first** fault is the answer, so that a long run of digits is too large before
a letter behind it is seen.

## Contents
* `NumberError` — why a text is no number, with its wording
* `readNumber` — the reader
-/

namespace Sentential.Text

/-- Numbers are below this bound. -/
def numberBound : Nat := 1 <<< 64

/-- Why a text is not an unsigned 64-bit number. -/
inductive NumberError where
  | empty
  | invalidDigit
  | tooLarge
  deriving DecidableEq

/-- The wording of a fault. -/
def NumberError.message : NumberError → String
  | .empty => "cannot parse integer from empty string"
  | .invalidDigit => "invalid digit found in string"
  | .tooLarge => "number too large to fit in target type"

/-- The value of a decimal digit. -/
def digit? (c : Char) : Option Nat :=
  if '0' ≤ c && c ≤ '9' then some (c.toNat - 48) else none

/-- Digits read from the left onto the value of those before them. -/
def readDigits (value : Nat) : List Char → Except NumberError Nat
  | [] => .ok value
  | c :: rest =>
    match digit? c with
    | none => .error .invalidDigit
    | some d =>
      if 10 * value + d < numberBound then readDigits (10 * value + d) rest else .error .tooLarge

/-- A number in decimal, with an optional `+` before its first digit. -/
def readNumber (text : String) : Except NumberError Nat :=
  match text.toList with
  | [] => .error .empty
  | ['+'] => .error .invalidDigit
  | '+' :: digits => readDigits 0 digits
  | digits => readDigits 0 digits

end Sentential.Text
