import Sentential.Formula.Basic

/-!
# `Sentential.Formula.Order` — the order of formulas

Atoms come first, then negations, then binary formulas. Two of a kind are compared part by part: atoms by
their leaves, negations by their operands, binary formulas by connective, left operand and right operand in
this sequence.
-/

namespace Sentential

namespace Formula

variable {α : Type} [Ord α]

/-- The order of two formulas. -/
def order : Formula α → Formula α → Ordering
  | atom a, atom b => compare a b
  | atom _, _ => .lt
  | negation _, atom _ => .gt
  | negation f, negation g => f.order g
  | negation _, binary _ _ _ => .lt
  | binary c f g, binary c' f' g' => (compare c c').then ((f.order f').then (g.order g'))
  | binary _ _ _, _ => .gt

instance : Ord (Formula α) where
  compare := order

/-- A list of formulas in rising order; equal ones stay in sequence. -/
def sorted (formulas : List (Formula α)) : List (Formula α) :=
  formulas.mergeSort fun f g => (f.order g).isLE

end Formula

end Sentential
