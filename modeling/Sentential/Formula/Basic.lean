import Sentential.Connective
import Sentential.Distinct
import Sentential.Symbol

/-!
# `Sentential.Formula` — abstract formulas

A formula is a tree of negations and binary connectives over leaves of some type. Brackets and spellings
are not part of it. With symbols at the leaves it is a `Statement`; a pattern is a statement too, whose
symbols are read as variables. Substitution of formulas for leaves is `bind`, and the meaning of a formula
under a valuation of its leaves is `eval`.

## Contents
* `Formula`, `Statement`
* `map`, `bind`, `traverse?` — replacing leaves by leaves, by formulas, by leaves that may be missing
* `leaves`, `symbols` — the leaves from left to right, and without repeats
* `eval` — the truth value under a valuation
* `children`, `isBinary` — the tree's shape at its root
-/

namespace Sentential

/-- A formula over leaves of type `α`. -/
inductive Formula (α : Type) where
  | atom (leaf : α)
  | negation (operand : Formula α)
  | binary (connective : Connective) (left right : Formula α)
  deriving DecidableEq

/-- A formula whose leaves are symbols. -/
abbrev Statement := Formula Symbol

namespace Formula

variable {α β γ : Type}

/-! ## Shape -/

/-- The operands at the root, from left to right. -/
def children : Formula α → List (Formula α)
  | atom _ => []
  | negation f => [f]
  | binary _ f g => [f, g]

/-- The root is a binary connective. -/
def isBinary : Formula α → Bool
  | binary _ _ _ => true
  | _ => false

/-- The leaves from left to right. -/
def leaves : Formula α → List α
  | atom a => [a]
  | negation f => f.leaves
  | binary _ f g => f.leaves ++ g.leaves

/-- The distinct leaves by first occurrence. -/
def symbols [DecidableEq α] (f : Formula α) : List α := distinct f.leaves

/-! ## Replacing leaves -/

/-- Every leaf replaced by a formula. -/
def bind (f : Formula α) (σ : α → Formula β) : Formula β :=
  match f with
  | atom a => σ a
  | negation f => negation (f.bind σ)
  | binary c f g => binary c (f.bind σ) (g.bind σ)

/-- Every leaf replaced by a leaf. -/
def map (h : α → β) : Formula α → Formula β
  | atom a => atom (h a)
  | negation f => negation (f.map h)
  | binary c f g => binary c (f.map h) (g.map h)

/-- Every leaf replaced by a leaf, if none is missing. -/
def traverse? (h : α → Option β) : Formula α → Option (Formula β)
  | atom a => (h a).map atom
  | negation f => (f.traverse? h).map negation
  | binary c f g =>
    match f.traverse? h, g.traverse? h with
    | some f', some g' => some (binary c f' g')
    | _, _ => none

/-! ## Meaning -/

/-- The truth value under a valuation of the leaves. -/
def eval (v : α → Bool) : Formula α → Bool
  | atom a => v a
  | negation f => !f.eval v
  | binary c f g => c.apply (f.eval v) (g.eval v)

/-! ## Laws of substitution -/

@[simp] theorem bind_atom (a : α) (σ : α → Formula β) : (atom a).bind σ = σ a := rfl

@[simp] theorem bind_negation (f : Formula α) (σ : α → Formula β) :
    (negation f).bind σ = negation (f.bind σ) := rfl

@[simp] theorem bind_binary (c : Connective) (f g : Formula α) (σ : α → Formula β) :
    (binary c f g).bind σ = binary c (f.bind σ) (g.bind σ) := rfl

theorem bind_bind (f : Formula α) (σ : α → Formula β) (τ : β → Formula γ) :
    (f.bind σ).bind τ = f.bind fun a => (σ a).bind τ := by
  induction f with
  | atom a => rfl
  | negation f ih => simp [ih]
  | binary c f g ihf ihg => simp [ihf, ihg]

theorem bind_congr {f : Formula α} {σ τ : α → Formula β} (h : ∀ a ∈ f.leaves, σ a = τ a) :
    f.bind σ = f.bind τ := by
  induction f with
  | atom a => exact h a (by simp [leaves])
  | negation f ih => simp [ih h]
  | binary c f g ihf ihg =>
    simp [ihf fun a ha => h a (by simp [leaves, ha]), ihg fun a ha => h a (by simp [leaves, ha])]

/-- **Substitution lemma.** The value of a substituted formula is the value of the formula under the
    values of what was substituted. -/
theorem eval_bind (f : Formula α) (σ : α → Formula β) (v : β → Bool) :
    (f.bind σ).eval v = f.eval fun a => (σ a).eval v := by
  induction f with
  | atom a => rfl
  | negation f ih => simp [eval, ih]
  | binary c f g ihf ihg => simp [eval, ihf, ihg]

/-- Only the leaves that occur matter to the value. -/
theorem eval_congr {f : Formula α} {v w : α → Bool} (h : ∀ a ∈ f.leaves, v a = w a) :
    f.eval v = f.eval w := by
  induction f with
  | atom a => exact h a (by simp [leaves])
  | negation f ih => simp [eval, ih h]
  | binary c f g ihf ihg =>
    simp [eval, ihf fun a ha => h a (by simp [leaves, ha]), ihg fun a ha => h a (by simp [leaves, ha])]

end Formula

end Sentential
