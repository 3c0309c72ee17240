import Sentential.Inference.Search
import Sentential.Inference.Standard

/-!
# `Sentential.Proof` — a proof under construction

A proof has premises and a conclusion to be reached. Below the premises come derived **steps**, each with
the rule that it was inferred by and the lines that it cites. Lines are the premises and then the steps, and
are counted from zero; where they are shown to a reader, a justification counts from one. A step cites only
lines above it, a line that is cited cannot be removed, and the citations that remain are renumbered.

A step may hold placeholders until they are filled. The proof is complete when its last line is the
conclusion.

## Contents
* `Step`, `Proof`, `Line`, `Justification` — the proof and its lines
* `ProofError` — why a change is refused
* `Proof.parse`, `push`, `remove`, `fill` — making and changing a proof
* `argumentForms`, `replacementRules` — what can be inferred from lines
* `isComplete`, `text`, `explain`
-/

namespace Sentential

/-! ## Proofs and their lines -/

/-- A derived line: a statement, the abbreviation of the rule that it was inferred by, and the lines that it
    was inferred from. -/
structure Step where
  statement : Draft
  rule : String
  sources : List Nat
  deriving DecidableEq

/-- Premises, the steps derived so far, and the conclusion to be reached. -/
structure Proof where
  premises : List Statement
  steps : List Step
  conclusion : Statement
  deriving DecidableEq

/-- Why a line may stand in a proof. -/
inductive Justification where
  | premise
  | rule (abbreviation : String) (sources : List Nat)
  deriving DecidableEq

/-- A line of a proof. -/
structure Line where
  statement : Draft
  justification : Justification
  deriving DecidableEq

/-- The justification as text: the lines cited, counted from one, and the rule. -/
def Justification.text : Justification → String
  | premise => "Premise"
  | rule abbreviation sources =>
    ", ".intercalate (sources.map fun source => toString (source + 1)) ++ ", " ++ abbreviation

/-- A step as a line. -/
def Step.line (s : Step) : Line := ⟨s.statement, .rule s.rule s.sources⟩

/-! ## Refusals -/

/-- Why a request to a proof is refused. -/
inductive ProofError where
  | unknownLine (line : Nat)
  | forwardReference (line cited : Nat)
  | premiseRemoval (line : Nat)
  | lineInUse (line citing : Nat)
  | unfilledPlaceholder (line : Nat)
  | nothingToFill (line : Nat)
  | logic (fault : LogicError)
  deriving DecidableEq

/-- The wording of a refusal. Lines are counted from zero. -/
def ProofError.message : ProofError → String
  | unknownLine line => s!"There is no line {line}"
  | forwardReference line cited => s!"Line {line} can only cite earlier lines, not line {cited}"
  | premiseRemoval line => s!"Line {line} is a premise and cannot be removed"
  | lineInUse line citing => s!"Line {line} is cited by line {citing}"
  | unfilledPlaceholder line => s!"Line {line} still contains a placeholder"
  | nothingToFill line => s!"Line {line} has no placeholder to fill"
  | logic fault => fault.message

namespace Proof

/-! ## Reading -/

/-- The premises and then the steps. -/
def lines (p : Proof) : List Line :=
  p.premises.map (fun s => ⟨Draft.ofStatement s, .premise⟩) ++ p.steps.map Step.line

/-- The number of lines. -/
def size (p : Proof) : Nat := p.premises.length + p.steps.length

/-- A line by its number. -/
def line (p : Proof) (i : Nat) : Except ProofError Line :=
  match p.lines[i]? with
  | some l => .ok l
  | none => .error (.unknownLine i)

/-- The finished statement on a line. -/
def statement (p : Proof) (i : Nat) : Except ProofError Statement :=
  match p.line i with
  | .error e => .error e
  | .ok l =>
    match l.statement.statement? with
    | some s => .ok s
    | none => .error (.unfilledPlaceholder i)

/-- The finished statements on several lines, unless one of them is refused. -/
def statements (p : Proof) : List Nat → Except ProofError (List Statement)
  | [] => .ok []
  | i :: rest =>
    match p.statement i with
    | .error e => .error e
    | .ok s => (p.statements rest).map (s :: ·)

/-- The last line is the conclusion. -/
def isComplete (p : Proof) : Bool :=
  match p.lines.getLast? with
  | none => false
  | some l => l.statement.statement? == some p.conclusion

/-! ## Changes -/

/-- A proof without steps, from texts. -/
def parse (premises : List String) (conclusion : String) : Except ProofError Proof :=
  match premises.mapM Statement.parse with
  | .error fault => .error (.logic (.malformed fault))
  | .ok premises =>
    match Statement.parse conclusion with
    | .error fault => .error (.logic (.malformed fault))
    | .ok conclusion => .ok ⟨premises, [], conclusion⟩

/-- A step added at the end. It may cite only lines that are there. -/
def push (p : Proof) (s : Step) : Except ProofError Proof :=
  match s.sources.find? (p.size ≤ ·) with
  | some cited => .error (.forwardReference p.size cited)
  | none => .ok { p with steps := p.steps ++ [s] }

/-- The number of a line once line `removed` is gone. -/
def renumber (removed line : Nat) : Nat := if removed < line then line - 1 else line

/-- A step once line `removed` is gone. -/
def renumberStep (removed : Nat) (s : Step) : Step :=
  { s with sources := s.sources.map (renumber removed) }

/-- The lowest line that cites a line. -/
def citing? (p : Proof) (i : Nat) : Option Nat :=
  (p.steps.findIdx? (·.sources.contains i)).map (p.premises.length + ·)

/-- A line taken out, and the proof without it. Premises and cited lines stay. -/
def remove (p : Proof) (i : Nat) : Except ProofError (Line × Proof) :=
  match p.line i with
  | .error e => .error e
  | .ok l =>
    if i < p.premises.length then .error (.premiseRemoval i)
    else match p.citing? i with
      | some citing => .error (.lineInUse i citing)
      | none =>
        .ok (l, { p with steps := (p.steps.eraseIdx (i - p.premises.length)).map (renumberStep i) })

/-- Every placeholder of a line replaced by a statement. -/
def fill (p : Proof) (i : Nat) (filling : Statement) : Except ProofError Proof :=
  match p.line i with
  | .error e => .error e
  | .ok l =>
    if l.statement.hasPlaceholder then
      let filled := Draft.ofStatement (l.statement.fill filling)
      .ok { p with steps := p.steps.modify (i - p.premises.length) fun s => { s with statement := filled } }
    else .error (.nothingToFill i)

/-! ## Inference -/

/-- The argument forms that fit the statements on selected lines, with an account of the search. -/
def argumentForms (p : Proof) (medium : Medium) (selected : List Nat) (e : Explanation) :
    Except ProofError (List FormMatch × Explanation) :=
  match p.statements selected with
  | .error refusal => .error refusal
  | .ok statements => .ok (Catalogue.standard.searchForms medium statements e)

/-- The replacement rules that fit a fragment of a line, with an account of the search. -/
def replacementRules (p : Proof) (medium : Medium) (i : Nat) (path : Path) (e : Explanation) :
    Except ProofError (List RuleMatch × Explanation) :=
  match p.statement i with
  | .error refusal => .error refusal
  | .ok s =>
    match Catalogue.standard.searchRules medium s path e with
    | .error fault => .error (.logic fault)
    | .ok found => .ok found

/-! ## Texts -/

/-- A text with blanks in front up to a width. -/
def padLeft (width : Nat) (text : String) : String :=
  String.ofList (List.replicate (width - text.length) ' ') ++ text

/-- A text with blanks behind up to a width. -/
def padRight (width : Nat) (text : String) : String :=
  text ++ String.ofList (List.replicate (width - text.length) ' ')

/-- The proof as text: the lines numbered from one, their justifications in a column, and the conclusion. -/
def text (p : Proof) : String :=
  let width := (p.lines.map (·.statement.text.length)).foldl max 0
  String.join (p.lines.zipIdx.map fun (l, i) =>
    padLeft 3 (toString (i + 1)) ++ ". " ++ padRight width l.statement.text ++ "    " ++
      l.justification.text ++ "\n") ++
    "  ∴ " ++ p.conclusion.text

/-- The proof told line by line. -/
def explain (p : Proof) (e : Explanation) : Explanation :=
  e.topic <| (Explanation.titled ("Proof of " ++ p.conclusion.text)).steps <|
    (p.lines.zipIdx.map fun (l, i) =>
      toString (i + 1) ++ ". " ++ l.statement.text ++ " (" ++ l.justification.text ++ ")") ++
      if p.isComplete then ["The conclusion has been reached"] else []

end Proof

end Sentential
