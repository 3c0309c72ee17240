import Sentential.Sentence.Parser

/-!
# `Sentential.Inference.Catalogue` — argument forms and replacement rules

An **argument form** infers conclusions from premises; a form with several conclusions allows each of them.
A **replacement rule** lists pairs of patterns, either of which may be replaced by the other. A catalogue
holds forms and rules under a name and an abbreviation, which several of them may share. Its patterns are
statements; a catalogue may also be given with patterns as source text and is then parsed as a whole.

## Contents
* `ArgumentForm`, `ReplacementRule`, `Catalogue` — over patterns of any type
* `ReplacementRule.directions` — every replacement that a rule allows
* `Catalogue.formsNamed`, `Catalogue.ruleNamed?` — look-up by abbreviation
* `Catalogue.parse` — a catalogue from source texts
-/

namespace Sentential

/-- Premises and what may be concluded from them. -/
structure ArgumentForm (π : Type) where
  name : String
  abbreviation : String
  premises : List π
  conclusions : List π
  deriving DecidableEq

/-- Pairs of patterns that may replace each other. -/
structure ReplacementRule (π : Type) where
  name : String
  abbreviation : String
  equivalences : List (π × π)
  deriving DecidableEq

/-- Forms and rules. -/
structure Catalogue (π : Type) where
  forms : List (ArgumentForm π)
  rules : List (ReplacementRule π)
  deriving DecidableEq

/-- The name with the abbreviation in brackets. -/
def ArgumentForm.title {π : Type} (f : ArgumentForm π) : String :=
  f.name ++ " (" ++ f.abbreviation ++ ")"

/-- The name with the abbreviation in brackets. -/
def ReplacementRule.title {π : Type} (r : ReplacementRule π) : String :=
  r.name ++ " (" ++ r.abbreviation ++ ")"

/-- Every replacement that the rule allows, as what is replaced and by what: each pair forwards, then
    backwards. -/
def ReplacementRule.directions {π : Type} (r : ReplacementRule π) : List (π × π) :=
  r.equivalences.flatMap fun (left, right) => [(left, right), (right, left)]

namespace Catalogue

/-! ## Look-up -/

/-- The forms with an abbreviation. -/
def formsNamed {π : Type} (c : Catalogue π) (abbreviation : String) : List (ArgumentForm π) :=
  c.forms.filter (·.abbreviation == abbreviation)

/-- The first rule with an abbreviation. -/
def ruleNamed? {π : Type} (c : Catalogue π) (abbreviation : String) : Option (ReplacementRule π) :=
  c.rules.find? (·.abbreviation == abbreviation)

/-! ## Catalogues from source texts -/

/-- The pattern written in a text. -/
def parsePattern (source : String) : Except LogicError Statement :=
  match Statement.parse source with
  | .ok pattern => .ok pattern
  | .error fault => .error (.internal s!"catalogue pattern \"{source}\" does not parse: {fault.message}")

/-- The form written in texts. -/
def parseForm (f : ArgumentForm String) : Except LogicError (ArgumentForm Statement) := do
  let premises ← f.premises.mapM parsePattern
  let conclusions ← f.conclusions.mapM parsePattern
  return ⟨f.name, f.abbreviation, premises, conclusions⟩

/-- The rule written in texts. -/
def parseRule (r : ReplacementRule String) : Except LogicError (ReplacementRule Statement) := do
  let equivalences ← r.equivalences.mapM fun (left, right) => do
    let left ← parsePattern left
    let right ← parsePattern right
    return (left, right)
  return ⟨r.name, r.abbreviation, equivalences⟩

/-- The catalogue written in texts. The first text that is no sentence is the fault; forms come before
    rules. -/
def parse (c : Catalogue String) : Except LogicError (Catalogue Statement) := do
  let forms ← c.forms.mapM parseForm
  let rules ← c.rules.mapM parseRule
  return ⟨forms, rules⟩

end Catalogue

end Sentential
