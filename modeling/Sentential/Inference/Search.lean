import Sentential.Explanation
import Sentential.Inference.Catalogue
import Sentential.Inference.Matching
import Sentential.Style

/-!
# `Sentential.Inference.Search` — what a catalogue allows to infer

Given statements, a search finds the argument forms whose premises they are, in any order, and what each
form concludes. Given a fragment of a statement, it finds the replacement rules that apply to the
fragment and how the statement then reads. Results with the same text are given once.

A search also writes down what it tried: one topic for every candidate, which holds either the bindings
found and the results, or that nothing matched.

## Contents
* `ArgumentForm.match?`, `ReplacementRule.match?` — one candidate
* `FormMatch`, `RuleMatch` — a candidate that fits, with its results
* `Catalogue.searchForms`, `Catalogue.searchRules` — all candidates, with the explanation
* `FormMatch.explain`, `RuleMatch.explain` — a summary of one match
-/

namespace Sentential

/-! ## Argument forms -/

/-- An argument form that fits, what its variables stand for, and what it concludes. -/
structure FormMatch where
  form : ArgumentForm Statement
  bindings : Bindings
  derived : List Draft

/-- The form's conclusions from statements that are its premises in some order. -/
def ArgumentForm.match? (form : ArgumentForm Statement) (statements : List Statement) : Option FormMatch :=
  match matchPremises form.premises statements Assignment.empty with
  | none => none
  | some b => some ⟨form, b, distinctBy Formula.text (form.conclusions.map (substitute · b))⟩

/-- The account of trying a form on statements. -/
def ArgumentForm.account (medium : Medium) (statements : List Statement) (form : ArgumentForm Statement) :
    Explanation :=
  (Explanation.titled form.title).steps <|
    match form.match? statements with
    | none => [medium.paint (.coloured .red) "No assignment of premises matches"]
    | some m =>
      ("Matched with " ++ medium.paint (.coloured .green) m.bindings.text) ::
        m.derived.map fun d => "=> " ++ medium.paint (.coloured .blue) d.text

/-- The forms with as many premises as there are statements. -/
def Catalogue.candidates (c : Catalogue Statement) (statements : List Statement) :
    List (ArgumentForm Statement) :=
  c.forms.filter (·.premises.length == statements.length)

/-- The forms that fit statements, and the explanation with an account of each candidate added. -/
def Catalogue.searchForms (c : Catalogue Statement) (medium : Medium) (statements : List Statement)
    (e : Explanation) : List FormMatch × Explanation :=
  let candidates := c.candidates statements
  (candidates.filterMap (·.match? statements), e.topics (candidates.map (·.account medium statements)))

/-- A summary of the match: its bindings and its results. -/
def FormMatch.explain (m : FormMatch) (e : Explanation) : Explanation :=
  e.topic <| (Explanation.titled m.form.title).steps <|
    (m.bindings.pairs.map fun (x, s) => x.name ++ " ← " ++ s.text) ++
      m.derived.map fun d => "=> " ++ d.text

/-! ## Replacement rules -/

/-- A replacement rule that fits: what the fragment becomes, and for each result the whole statement with
    it in place. -/
structure RuleMatch where
  rule : ReplacementRule Statement
  derived : List Draft
  spliced : List String

/-- One use of a replacement: what is replaced, by what, under which bindings, and the result. -/
structure Replacement where
  source : Statement
  target : Statement
  bindings : Bindings
  result : Draft

/-- Every use of the rule on a fragment. -/
def ReplacementRule.uses (rule : ReplacementRule Statement) (fragment : Statement) : List Replacement :=
  rule.directions.filterMap fun (source, target) =>
    match matchPattern source fragment Assignment.empty with
    | none => none
    | some b => some ⟨source, target, b, substitute target b⟩

/-- The text of the statement with a result at the place of the fragment. A result that holds a
    placeholder is given by its own text. -/
def splice (statement : Statement) (path : Path) (result : Draft) : String :=
  match result.statement? with
  | none => result.text
  | some new =>
    match statement.replace? path new with
    | none => result.text
    | some whole => whole.text

/-- The rule's results on the fragment of a statement at a path. -/
def ReplacementRule.match? (statement : Statement) (path : Path) (fragment : Statement)
    (rule : ReplacementRule Statement) : Option RuleMatch :=
  match rule.uses fragment with
  | [] => none
  | uses =>
    let derived := distinctBy Formula.text (uses.map Replacement.result)
    some ⟨rule, derived, derived.map (splice statement path)⟩

/-- The account of trying a rule on a fragment. -/
def ReplacementRule.account (medium : Medium) (fragment : Statement) (rule : ReplacementRule Statement) :
    Explanation :=
  (Explanation.titled rule.title).steps <|
    match rule.uses fragment with
    | [] => [medium.paint (.coloured .red) "No equivalence matches"]
    | uses => uses.map fun r =>
      r.source.text ++ " ⟹ " ++ r.target.text ++ " with " ++
        medium.paint (.coloured .green) r.bindings.text ++ " gives " ++
        medium.paint (.coloured .blue) r.result.text

/-- The rules that fit the fragment of a statement at a path, and the explanation with an account of each
    rule added. A path that leaves the statement is a fault, and nothing is written down. -/
def Catalogue.searchRules (c : Catalogue Statement) (medium : Medium) (statement : Statement) (path : Path)
    (e : Explanation) : Except LogicError (List RuleMatch × Explanation) :=
  match statement.fragment? path with
  | none => .error (.fragmentNotFound path)
  | some fragment =>
    .ok (c.rules.filterMap (·.match? statement path fragment),
      e.topics (c.rules.map (·.account medium fragment)))

/-- A summary of the match: its results, and how the whole statement reads where that differs. -/
def RuleMatch.explain (m : RuleMatch) (e : Explanation) : Explanation :=
  e.topic <| (Explanation.titled m.rule.title).steps <|
    List.zipWith (fun d whole =>
      if d.text = whole then "=> " ++ d.text else "=> " ++ d.text ++ " (in place: " ++ whole ++ ")")
      m.derived m.spliced

end Sentential
