import Sentential.Table.Build

/-!
# `Sentential.Table.Words` — tables whose rows are counted in words

A machine counts rows in words of 64 bits, and not every number of rows can be had there. A shift by the width
of a word has no meaning, a division by zero no result, and an array has at most as many bytes as a signed word
can count. The constant columns are made here step by step, and the first step without a result is the fault.
Everything else about a table is as it is with numbers.

## Contents
* `WordFault` — what has no result in words
* `Word.shiftLeft`, `Word.shiftRight`, `Word.divide`, `Word.reserve` — arithmetic in words, and room for an array
* `rowTotalInWord`, `constantCellsInWords`, `constantColumnsInWords` — constant columns in words
* `Sentence.tableInWords`, `jointTableInWords` — tables in words
-/

namespace Sentential

/-! ## Words -/

/-- What has no result in words. -/
inductive WordFault where
  /-- A shift by the width of a word or more. -/
  | shift (distance : Nat)
  /-- A division by zero. -/
  | division
  /-- An array of more bytes than an array can have. -/
  | capacity (bytes : Nat)
  deriving DecidableEq

/-- The wording of the fault. -/
def WordFault.message : WordFault → String
  | shift _ => "attempt to shift with overflow"
  | division => "attempt to divide by zero"
  | capacity _ => "capacity overflow"

namespace Word

/-- A word shifted to the left. -/
def shiftLeft (word : UInt64) (distance : Nat) : Except WordFault UInt64 :=
  if distance < 64 then .ok (word <<< .ofNat distance) else .error (.shift distance)

/-- A word shifted to the right. -/
def shiftRight (word : UInt64) (distance : Nat) : Except WordFault UInt64 :=
  if distance < 64 then .ok (word >>> .ofNat distance) else .error (.shift distance)

/-- The quotient of words. -/
def divide (word divisor : UInt64) : Except WordFault UInt64 :=
  if divisor = 0 then .error .division else .ok (word / divisor)

/-- The most bytes of an array: the largest word that is not negative when it has a sign. -/
def maxBytes : UInt64 := 0x7FFFFFFFFFFFFFFF

/-- Room for an array of so many bytes. -/
def reserve (bytes : UInt64) : Except WordFault Unit :=
  if bytes ≤ maxBytes then .ok () else .error (.capacity bytes.toNat)

end Word

/-! ## Constant columns -/

/-- The number of rows over `n` symbols, in a word. -/
def rowTotalInWord (n : Nat) : Except WordFault UInt64 := Word.shiftLeft 1 n

/-- The values of the symbol at place `i` of `n`, computed in words. A cell takes a byte, and room for all cells
    is made before the first. -/
def constantCellsInWords (n i : Nat) : Except WordFault (Array Bool) := do
  let height ← rowTotalInWord n
  let runLength ← Word.shiftRight height (i + 1)
  Word.reserve height
  (Array.range height.toNat).mapM fun row => do
    let run ← Word.divide (.ofNat row) runLength
    return run % 2 == 0

/-- The constant columns of symbols, computed in words. -/
def constantColumnsInWords (symbols : List Symbol) : Except WordFault (Assignment (Array Bool)) := do
  let columns ← symbols.zipIdx.mapM fun (s, i) => do
    let cells ← constantCellsInWords symbols.length i
    return (s, cells)
  return Assignment.ofList columns

/-! ## Tables -/

/-- The table of one sentence, with its rows counted in words. -/
def Sentence.tableInWords (limit : Limit) (t : Sentence) : Except WordFault (Except LogicError TableViews) :=
  match symbolsWithin limit [t] with
  | .error e => .ok (.error e)
  | .ok symbols => do
    let constants ← constantColumnsInWords symbols
    return do
      let (detailed, simple) ← t.views constants
      return ⟨detailed, simple, symbols⟩

/-- The joint table of several sentences, with its rows counted in words. -/
def jointTableInWords (limit : Limit) (isArgument : Bool) (sentences : List Sentence) :
    Except WordFault (Except LogicError TableViews) :=
  if sentences.isEmpty then .ok (.error .nothingToJoin) else
  match symbolsWithin limit sentences with
  | .error e => .ok (.error e)
  | .ok symbols => do
    let constants ← constantColumnsInWords symbols
    let height ← rowTotalInWord symbols.length
    return do
      let views ← sentences.mapM (·.views constants)
      let join := Table.join isArgument height.toNat
      return ⟨join (views.map Prod.fst), join (views.map Prod.snd), symbols⟩

end Sentential
