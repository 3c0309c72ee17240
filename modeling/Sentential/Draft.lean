import Sentential.Formula.Printer

/-!
# `Sentential.Draft` — statements with placeholders

An argument form may conclude a statement with a part that no premise fixes: from `A` follows `A v %` with
anything at `%`. Such a statement is a **draft**, a formula whose leaves are symbols or placeholders. A
draft without placeholder is finished; any other is finished by filling all its placeholders alike.

## Contents
* `Draft` — formulas over `Option Symbol`, `none` being the placeholder
* `Draft.ofStatement`, `Draft.statement?` — to and from finished statements
* `Draft.hasPlaceholder`, `Draft.fill`
-/

namespace Sentential

/-- A statement that may hold placeholders; `none` is the placeholder. -/
abbrev Draft := Formula (Option Symbol)

/-- The spelling of a placeholder. -/
def placeholderToken : String := "%"

/-- A symbol is written as its name, a placeholder as its token. -/
instance : Leaf (Option Symbol) where
  token
    | none => placeholderToken
    | some s => s.name

namespace Draft

/-- A placeholder standing alone. -/
def placeholder : Draft := .atom none

/-- A finished statement as a draft. -/
def ofStatement (s : Statement) : Draft := s.map some

/-- The finished statement, if no placeholder remains. -/
def statement? (d : Draft) : Option Statement := d.traverse? id

/-- Some leaf is a placeholder. -/
def hasPlaceholder (d : Draft) : Bool := d.leaves.any Option.isNone

/-- The statement with `filling` at every placeholder. -/
def fill (d : Draft) (filling : Statement) : Statement :=
  d.bind fun
    | none => filling
    | some s => .atom s

end Draft

end Sentential
