import Sentential.CommandLine.Arguments
import Sentential.Sentence.Typeset
import Sentential.Session.Basic
import Sentential.Table.Render
import Sentential.Table.Words
import Sentential.Verdict

/-!
# `Sentential.CommandLine.Answer` — what the program answers

A request is answered by text on the output, by text on the error output, and by an exit code: 0 for an
answer, 1 if the request cannot be met, 2 for a usage error. A request that cannot be met prints nothing but
the fault. Rows are counted in words, and a fault of the words ends the program with 101.

## Contents
* `Outcome` — exit code and both texts
* `Output` — where texts go, and how decorated pieces are written
* `tableAnswer`, `jointAnswer`, `formsAnswer`, `rulesAnswer` — the answers to single requests
* `answer` — the answer to the arguments, given the input that a session reads
-/

namespace Sentential

/-- The exit code and what is printed on either side. -/
structure Outcome where
  code : Nat
  output : String
  errors : String

/-! ## Settings of the output -/

/-- Where an answer goes: `page` decorates pieces of an answer, `screen` the account of a search, which is
    never HTML. -/
structure Output where
  page : Medium
  screen : Medium

/-- The output with or without terminal colours, or as HTML inside Markdown. -/
def Output.of (colour markdown : Bool) : Output :=
  let screen := if colour then Medium.terminal else Medium.plain
  ⟨if markdown then .html else screen, screen⟩

/-! ## Answers -/

/-- The sentence in a text, or the fault with a caret below it. -/
def parseShown (source : String) : Except String Sentence :=
  (Sentence.parse source).mapError fun fault => fault.messageWithCaret source

/-- A line of an answer under a bold label, with an empty line behind it. -/
def labelled (label text : String) : String := "- **" ++ label ++ ":** " ++ text ++ "\n\n"

/-- The table of a sentence with its kind. -/
def tableAnswer (out : Output) (limit : Limit) (source : String) (simple : Bool) :
    Except WordFault (Except String String) :=
  match parseShown source with
  | .error fault => .ok (.error fault)
  | .ok sentence => do
    let made ← sentence.tableInWords limit
    return do
      let views ← made.mapError LogicError.message
      let table := if simple then views.simple else views.detailed
      return labelled "Input" (out.page.paint (.coloured .green) (typeset source)) ++
        table.render out.page ++ "\n" ++
        labelled "Conclusion" (sentence.statement.text ++ " is a " ++
          out.page.paint (Style.coloured .blue).inBold views.detailed.kind.name)

/-- The relation in running text. -/
def Relation.phrase : Relation → String
  | equivalent => "equivalent"
  | contradictory => "contradictory"
  | neither => "neither equivalent nor contradictory"

/-- The consistency in running text. -/
def consistencyWord (consistent : Bool) : String := if consistent then "consistent" else "inconsistent"

/-- The verdict on an argument in running text. -/
def Validity.phrase (out : Output) (v : Validity) : String :=
  if v.valid then "✅ The argument is valid."
  else
    let rows := ", ".intercalate (v.counterexamples.map fun row => toString (row + 1))
    "❌ The argument is invalid; counterexample rows: " ++ out.page.paint (.coloured .red) rows

/-- The verdict on sentences side by side in running text. -/
def Comparison.phrase (out : Output) (c : Comparison) : String :=
  let strong := out.page.paint (Style.coloured .blue).inBold
  "The statements are " ++ strong c.relation.phrase ++ " and " ++ strong (consistencyWord c.consistent) ++ "."

/-- The joint table of sentences with the verdict on them. -/
def jointAnswer (out : Output) (limit : Limit) (isArgument : Bool) (sources : List String) :
    Except WordFault (Except String String) :=
  match sources.mapM parseShown with
  | .error fault => .ok (.error fault)
  | .ok sentences => do
    let made ← jointTableInWords limit isArgument sentences
    return do
      let views ← made.mapError LogicError.message
      let table := views.detailed
      let shown := " / ".intercalate (sources.map typeset)
      let verdict := if isArgument then table.validity.phrase out else table.comparison.phrase out
      return labelled "Input" (out.page.paint (.coloured .green) shown) ++
        table.render out.page ++ "\n" ++ labelled "Conclusion" verdict

/-- The account of a search if it is wanted. -/
def accountIf (wanted : Bool) (e : Explanation) : String := if wanted then e.text ++ "\n" else ""

/-- The results under a name in bold and an abbreviation. -/
def resultLine (name abbreviation : String) (results : List String) : String :=
  "- **" ++ name ++ "** (" ++ abbreviation ++ "): " ++ ", ".intercalate results ++ "\n"

/-- What argument forms infer from sentences. -/
def formsAnswer (out : Output) (sources : List String) (explain : Bool) : Except String String := do
  let sentences ← sources.mapM parseShown
  let (found, e) := Catalogue.standard.searchForms out.screen (sentences.map Sentence.statement)
    (.titled "Argument forms")
  return accountIf explain e ++
    (if found.isEmpty then "No argument form applies.\n" else "") ++
    String.join (found.map fun m =>
      resultLine m.form.name m.form.abbreviation
        (m.derived.map fun d => out.page.paint (.coloured .green) d.text))

/-- What replacement rules make of a fragment of a sentence. -/
def rulesAnswer (out : Output) (source : String) (path : Path) (explain : Bool) : Except String String := do
  let sentence ← parseShown source
  let (found, e) ← (Catalogue.standard.searchRules out.screen sentence.statement path
    (.titled "Replacement rules")).mapError LogicError.message
  let green := out.page.paint (.coloured .green)
  return accountIf explain e ++
    (if found.isEmpty then "No replacement rule applies.\n" else "") ++
    String.join (found.map fun m =>
      resultLine m.rule.name m.rule.abbreviation
        (List.zipWith (fun d whole =>
          if path.isEmpty then green d.text else d.text ++ " ⟹ " ++ green whole) m.derived m.spliced))

/-- A fault as the program ends with it. -/
def failure (fault : String) : Outcome := ⟨1, "", "Error: " ++ fault ++ "\n"⟩

/-- An answer or a fault as an outcome. -/
def Outcome.of : Except String String → Outcome
  | .ok output => ⟨0, output, ""⟩
  | .error fault => failure fault

/-- An answer for which rows were counted in words, as an outcome. -/
def Outcome.ofWords : Except WordFault (Except String String) → Outcome
  | .ok answered => .of answered
  | .error fault => ⟨101, "", fault.message ++ "\n"⟩

/-- The last of several texts, and those before it. -/
def splitLast (texts : List String) : List String × String := (texts.dropLast, texts.getLast?.getD "")

/-- The fault of a session that cannot start. -/
def sessionFailure (refusal : ProofError) : Outcome :=
  failure ("Proof session failed\n\nCaused by:\n    " ++ refusal.message)

/-- A whole session on given input. -/
def sessionAnswer (out : Output) (sources : List String) (input : String) : Outcome :=
  let (premises, conclusion) := splitLast sources
  match Session.start premises conclusion with
  | .error refusal => sessionFailure refusal
  | .ok s =>
    let (output, refusals) := s.transcript out.page (inputLines input)
    ⟨0, s.opening out.page premises ++ output, refusals⟩

/-- The answer to a request. -/
def Invocation.answer (colour : Bool) (i : Invocation) (input : String) : Outcome :=
  let out := Output.of colour i.markdown
  match i.request with
  | .table source simple => .ofWords (tableAnswer out i.limit source simple)
  | .compare sources => .ofWords (jointAnswer out i.limit false sources)
  | .argument sources => .ofWords (jointAnswer out i.limit true sources)
  | .derive sources explain => .of (formsAnswer out sources explain)
  | .replace source path explain => .of (rulesAnswer out source path explain)
  | .prove sources => sessionAnswer out sources input

/-- What is printed on a usage error. -/
def usage : String :=
  "\n".intercalate
    [ "Usage: [--max-variables N] [--verbose] [--markdown] COMMAND",
      "  table STATEMENT [--simple]",
      "  compare STATEMENT STATEMENT...",
      "  argument STATEMENT STATEMENT...",
      "  derive STATEMENT... [--explain]",
      "  replace STATEMENT [--path I,J,...] [--explain]",
      "  prove STATEMENT STATEMENT...", "" ]

/-- The answer to the arguments of the program, given the input that a session reads. -/
def answer (colour : Bool) (arguments : List String) (input : String) : Outcome :=
  match Invocation.ofArguments? arguments with
  | none => ⟨2, "", usage⟩
  | some i => i.answer colour input

end Sentential
