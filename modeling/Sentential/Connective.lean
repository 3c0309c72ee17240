/-!
# `Sentential.Connective` — the four binary connectives

A connective has one **token**, used when a formula is printed, and several **glyphs**, each of which a
sentence may be written with. Conjunction binds tightest, then disjunction, conditional and biconditional;
the same sequence is their order.

## Contents
* `Connective` with `token`, `name`, `glyphs`, `apply`
* `Connective.looseness` — how loosely a connective binds, which is also its place in the order
* `Connective.ofGlyph?` — the connective that a glyph is written for
* `negationToken`, `negationGlyphs` — the same data for negation
-/

namespace Sentential

/-- A binary connective. -/
inductive Connective where
  | conjunction
  | disjunction
  | conditional
  | biconditional
  deriving DecidableEq

namespace Connective

/-- The connectives, tightest first. -/
def all : List Connective := [conjunction, disjunction, conditional, biconditional]

/-- The spelling used when a formula is printed. -/
def token : Connective → String
  | conjunction => "&"
  | disjunction => "v"
  | conditional => ">"
  | biconditional => "="

/-- The connective's name in running text. -/
def name : Connective → String
  | conjunction => "conjunction"
  | disjunction => "disjunction"
  | conditional => "conditional"
  | biconditional => "biconditional"

/-- Every spelling that a sentence may use, a longer one before its own beginning. -/
def glyphs : Connective → List String
  | conjunction => ["&&", "&", "/\\", "∧"]
  | disjunction => ["||", "\\/", "v", "∨"]
  | conditional => [">", "⊃"]
  | biconditional => ["=", "≡"]

/-- The truth function. -/
def apply : Connective → Bool → Bool → Bool
  | conjunction, p, q => p && q
  | disjunction, p, q => p || q
  | conditional, p, q => !p || q
  | biconditional, p, q => p == q

/-- How loosely a connective binds. -/
def looseness : Connective → Nat
  | conjunction => 0
  | disjunction => 1
  | conditional => 2
  | biconditional => 3

/-- Connectives are ordered from tight to loose. -/
instance : Ord Connective where
  compare c d := compare c.looseness d.looseness

/-- The connective that a glyph is written for. -/
def ofGlyph? (glyph : String) : Option Connective :=
  all.find? (·.glyphs.contains glyph)

/-- A printed token is one of the connective's glyphs. -/
theorem token_mem_glyphs (c : Connective) : c.token ∈ c.glyphs := by
  cases c <;> decide

/-- No glyph is written for two connectives. -/
theorem ofGlyph?_eq_some_iff {glyph : String} {c : Connective} :
    ofGlyph? glyph = some c ↔ glyph ∈ c.glyphs := by
  constructor
  · intro h
    simpa using List.find?_some h
  · intro h
    have listed : ∀ d ∈ all, ∀ g ∈ d.glyphs, ofGlyph? g = some d := by decide
    exact listed c (by cases c <;> decide) glyph h

end Connective

/-! ## Negation -/

/-- The spelling of negation when a formula is printed. -/
def negationToken : String := "~"

/-- Every spelling of negation that a sentence may use. -/
def negationGlyphs : List String := ["~", "!", "¬"]

end Sentential
