import Sentential.Interpretation
import Sentential.Sentence.Basic
import Sentential.Table.Basic
import Sentential.Table.Limit

/-!
# `Sentential.Table.Build` — the table of a sentence, and of several

Every symbol of the sentences gets a **constant column**, which lists its values over all rows. A sentence
is evaluated column by column: each of its nodes other than a group has one, from left to right as the
sentence is written, and its main column is that of its root. A bracket has no column of its own; it is
glued to the header of the first or last column of its group.

A table comes in two views. The **detailed** view has a column for every node, the **simple** view has the
constant columns and the result. Tables of several sentences stand side by side over shared constants, with
a separator between neighbours; in an argument the separator before the conclusion is a double one.

## Contents
* `rowTotal`, `constantCells`, `constantColumns` — the values of a symbol on every row
* `Sentence.headers` — the headers of the detailed view
* `Block`, `Sentence.evaluate` — the values of every node, with the root's in the middle
* `TableViews`, `Sentence.table`, `jointTable` — both views of one and of several sentences
-/

namespace Sentential

/-! ## Constant columns -/

/-- The number of rows over `n` symbols: twice as many for each next symbol. -/
def rowTotal (n : Nat) : Nat := 1 <<< n

/-- The values of the symbol at place `i` of `n`: runs of true and false in turn, half as long for each next
    symbol. -/
def constantCells (n i : Nat) : Array Bool :=
  let runLength := rowTotal n >>> (i + 1)
  (Array.range (rowTotal n)).map fun row => row / runLength % 2 == 0

/-- The constant columns of symbols. -/
def constantColumns (symbols : List Symbol) : Assignment (Array Bool) :=
  Assignment.ofList (symbols.zipIdx.map fun (s, i) => (s, constantCells symbols.length i))

/-! ## Headers -/

/-- A character in front of the first text. -/
def glueFirst (c : Char) : List String → List String
  | [] => []
  | first :: rest => (c.toString ++ first) :: rest

/-- A character behind the last text. -/
def glueLast (c : Char) : List String → List String
  | [] => []
  | [last] => [last.push c]
  | first :: rest => first :: glueLast c rest

/-- The headers of the columns of a sentence: its symbols and glyphs from left to right, with the brackets
    glued to them. -/
def Sentence.headers : Sentence → List String
  | symbol s => [s.name]
  | negation g t => g :: t.headers
  | binary _ g l r => l.headers ++ g :: r.headers
  | group o t c => glueLast c (glueFirst o t.headers)

/-! ## Values -/

/-- The columns of a sentence around its main column. -/
structure Block where
  before : List (Array Bool)
  main : Array Bool
  after : List (Array Bool)

/-- All columns from left to right. -/
def Block.columns (b : Block) : List (Array Bool) := b.before ++ b.main :: b.after

/-- The columns of a sentence over given constant columns. -/
def Sentence.evaluate (constants : Assignment (Array Bool)) : Sentence → Except LogicError Block
  | symbol s =>
    match constants.get? s with
    | some cells => .ok ⟨[], cells, []⟩
    | none => .error (.internal s!"symbol {s.name} has no constant column")
  | negation _ t =>
    match t.evaluate constants with
    | .error e => .error e
    | .ok b => .ok ⟨[], b.main.map (!·), b.columns⟩
  | binary c _ l r =>
    match l.evaluate constants, r.evaluate constants with
    | .error e, _ => .error e
    | .ok _, .error e => .error e
    | .ok a, .ok b => .ok ⟨a.columns, Array.zipWith c.apply a.main b.main, b.columns⟩
  | group _ t _ => t.evaluate constants

/-! ## Views -/

/-- Both views of a table, and the symbols that it enumerates. -/
structure TableViews where
  detailed : Table
  simple : Table
  constants : List Symbol

/-- The detailed view of evaluated columns. -/
def Block.detailed (b : Block) (t : Sentence) : Table :=
  ⟨List.zipWith .values t.headers b.columns, [b.before.length]⟩

/-- The simple view of evaluated columns: the constants and the result. -/
def Block.simple (b : Block) (constants : Assignment (Array Bool)) (t : Sentence) : Table :=
  ⟨constants.pairs.map (fun (s, cells) => .values s.name cells) ++ [.values t.text b.main],
    [constants.pairs.length]⟩

/-- Both views of a sentence over given constant columns. -/
def Sentence.views (constants : Assignment (Array Bool)) (t : Sentence) :
    Except LogicError (Table × Table) :=
  match t.evaluate constants with
  | .error e => .error e
  | .ok b => .ok (b.detailed t, b.simple constants t)

/-- Two tables with a separator between them. -/
def Table.beside (left : Table) (separator : Column) (right : Table) : Table :=
  ⟨left.columns ++ separator :: right.columns,
    left.mains ++ right.mains.map (left.columns.length + 1 + ·)⟩

/-- Tables side by side; in an argument the last separator is a double one. -/
def Table.join (isArgument : Bool) (height : Nat) : List Table → Table
  | [] => ⟨[], []⟩
  | [last] => last
  | t :: rest =>
    let header := if isArgument && rest.length == 1 then "//" else "/"
    t.beside (.separator header height) (Table.join isArgument height rest)

/-! ## Tables within a limit -/

/-- The distinct symbols of sentences by first occurrence, if the limit allows for so many. -/
def symbolsWithin (limit : Limit) (sentences : List Sentence) : Except LogicError (List Symbol) :=
  let symbols := distinct (sentences.flatMap (·.statement.leaves))
  match limit.check symbols.length with
  | .error e => .error e
  | .ok () => .ok symbols

/-- The table of one sentence. -/
def Sentence.table (limit : Limit) (t : Sentence) : Except LogicError TableViews := do
  let symbols ← symbolsWithin limit [t]
  let (detailed, simple) ← t.views (constantColumns symbols)
  return ⟨detailed, simple, symbols⟩

/-- The joint table of several sentences; the last one is a conclusion if they are an argument. -/
def jointTable (limit : Limit) (isArgument : Bool) (sentences : List Sentence) :
    Except LogicError TableViews := do
  if sentences.isEmpty then
    throw .nothingToJoin
  let symbols ← symbolsWithin limit sentences
  let views ← sentences.mapM (·.views (constantColumns symbols))
  let join := Table.join isArgument (rowTotal symbols.length)
  return ⟨join (views.map Prod.fst), join (views.map Prod.snd), symbols⟩

end Sentential
