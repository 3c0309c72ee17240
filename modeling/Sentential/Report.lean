import Sentential.Inference.Search
import Sentential.Inference.Standard
import Sentential.Sentence.Typeset
import Sentential.Table.Build
import Sentential.Table.Render
import Sentential.Verdict

/-!
# `Sentential.Report` — results for display

A display shows results that it does not compute: tables with all their cells, verdicts in words, derived
statements by name. A report gathers what is to be shown about one request, together with an explanation of
how it was reached; if the request cannot be met, the fault takes the place of the result.

## Contents
* `Explained` — a result or a fault, with the explanation
* `TableReport`, `SentenceReport`, `JointReport`, `InferenceReport` — what is shown
* `reportSentence`, `reportJoint`, `reportForms`, `reportRules` — the requests
-/

namespace Sentential

/-- A result or a fault, with the explanation of how it was reached. -/
structure Explained (α : Type) where
  result : Except String α
  explanation : Explanation

/-- A table with all its cells. -/
structure TableReport where
  headers : List String
  rows : List (List (Option Bool))
  mains : List Nat
  markdown : String

/-- A sentence with its tables. -/
structure SentenceReport where
  statement : String
  typeset : String
  tree : String
  kind : String
  detailed : TableReport
  simple : TableReport

/-- Sentences side by side with a verdict. -/
structure JointReport where
  constants : List String
  verdict : String
  detailed : TableReport
  simple : TableReport

/-- What a form or a rule infers; `spliced` are the whole statements. -/
structure InferenceReport where
  name : String
  abbreviation : String
  derived : List String
  spliced : List String

/-- The cells of a table, with the places of main columns that it has. -/
def TableReport.of (t : Table) : TableReport where
  headers := t.headers
  rows := t.rows
  mains := (List.range t.columns.length).filter t.isMain
  markdown := t.render .html

/-- A sentence with its tables. -/
def reportSentence (limit : Limit) (source : String) : Explained SentenceReport :=
  match Sentence.parse source with
  | .error fault => ⟨.error (fault.messageWithCaret source), {}⟩
  | .ok sentence =>
    let statement := sentence.statement.text
    let account := (Explanation.titled "Parsing").steps
      ["Read as " ++ sentence.text, "Normalized to " ++ statement]
    let result := (sentence.table limit).map fun views =>
      { statement
        typeset := typeset sentence.text
        tree := sentence.statement.outline.text
        kind := views.detailed.kind.name
        detailed := .of views.detailed
        simple := .of views.simple }
    ⟨result.mapError (·.describe source), Explanation.topic {} account⟩

/-- The relation in a word. -/
def Relation.word : Relation → String
  | equivalent => "equivalent"
  | contradictory => "contradictory"
  | neither => "neither"

/-- The verdict on an argument with an account of the rows that refute it. -/
def Validity.report (v : Validity) : String × List String :=
  (if v.valid then "valid" else "invalid",
    v.counterexamples.map fun row => s!"Row {row + 1} is a counterexample")

/-- The verdict on sentences side by side with an account of their relation. -/
def Comparison.report (c : Comparison) : String × List String :=
  (c.relation.word ++ ", " ++ (if c.consistent then "consistent" else "inconsistent"),
    ["Relation: " ++ c.relation.name])

/-- The sentences in texts, or the first fault with a caret in its own text. -/
def parseAll (sources : List String) : Except String (List Sentence) :=
  sources.mapM fun source => (Sentence.parse source).mapError fun fault => fault.messageWithCaret source

/-- Sentences side by side with a verdict. -/
def reportJoint (limit : Limit) (isArgument : Bool) (sources : List String) : Explained JointReport :=
  match parseAll sources with
  | .error fault => ⟨.error fault, {}⟩
  | .ok sentences =>
    match jointTable limit isArgument sentences with
    | .error fault => ⟨.error fault.message, {}⟩
    | .ok views =>
      let (verdict, steps) :=
        if isArgument then views.detailed.validity.report else views.detailed.comparison.report
      ⟨.ok {
          constants := views.constants.map Symbol.name
          verdict
          detailed := .of views.detailed
          simple := .of views.simple },
        Explanation.topic {} ((Explanation.titled "Verdict").steps steps)⟩

/-- What a form infers. -/
def FormMatch.report (m : FormMatch) : InferenceReport :=
  let texts := m.derived.map Formula.text
  ⟨m.form.name, m.form.abbreviation, texts, texts⟩

/-- What a rule makes of a fragment. -/
def RuleMatch.report (m : RuleMatch) : InferenceReport :=
  ⟨m.rule.name, m.rule.abbreviation, m.derived.map Formula.text, m.spliced⟩

/-- A search with a summary of what applies. -/
def reportSearch {α : Type} (explain : α → Explanation → Explanation) (report : α → InferenceReport)
    (found : List α) (account : Explanation) : Explained (List InferenceReport) :=
  let summary := found.foldl (fun e m => explain m e) (Explanation.titled "Applicable")
  ⟨.ok (found.map report), Explanation.topics {} [account, summary]⟩

/-- What argument forms infer from sentences. -/
def reportForms (medium : Medium) (sources : List String) : Explained (List InferenceReport) :=
  let account := Explanation.titled "Argument forms"
  match sources.mapM Statement.parse with
  | .error fault => ⟨.error fault.message, Explanation.topic {} account⟩
  | .ok statements =>
    let (found, account) := Catalogue.standard.searchForms medium statements account
    reportSearch FormMatch.explain FormMatch.report found account

/-- What replacement rules make of a fragment of a sentence. -/
def reportRules (medium : Medium) (source : String) (path : Path) : Explained (List InferenceReport) :=
  let account := Explanation.titled "Replacement rules"
  match Statement.parse source with
  | .error fault => ⟨.error (fault.messageWithCaret source), Explanation.topic {} account⟩
  | .ok statement =>
    match Catalogue.standard.searchRules medium statement path account with
    | .error fault => ⟨.error fault.message, Explanation.topic {} account⟩
    | .ok (found, account) => reportSearch RuleMatch.explain RuleMatch.report found account

end Sentential
