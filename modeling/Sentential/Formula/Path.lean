import Sentential.Formula.Basic

/-!
# `Sentential.Formula.Path` — addressing a fragment

A path is a list of child indices from the root. `fragment?` follows it downwards; `replace?` rebuilds the
formula around another fragment at the same place. Both answer nothing when the path leaves the tree.
-/

namespace Sentential

/-- Child indices from the root. -/
abbrev Path := List Nat

namespace Formula

variable {α : Type}

/-- The fragment that a path leads to. -/
def fragment? : Path → Formula α → Option (Formula α)
  | [], f => some f
  | i :: rest, f => f.children[i]?.bind (fragment? rest)

/-- The formula with the fragment at a path replaced. -/
def replace? : Path → Formula α → Formula α → Option (Formula α)
  | [], _, new => some new
  | 0 :: rest, negation f, new => (replace? rest f new).map negation
  | 0 :: rest, binary c f g, new => (replace? rest f new).map fun f' => binary c f' g
  | 1 :: rest, binary c f g, new => (replace? rest g new).map fun g' => binary c f g'
  | _ :: _, _, _ => none

end Formula

end Sentential
