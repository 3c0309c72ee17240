import Sentential.Session.Command

/-!
# `Sentential.Session.Basic` — building a proof by commands

A session holds a proof, the lines selected for argument forms, and the **offers** of the last search. A
command either is refused, and then changes nothing, or gives a new session and what is printed. A session
ends with its input or at the command to leave.

## Contents
* `Offer`, `Session`, `Session.start`
* `Session.execute` — one command
* `Session.after` — the session after a command, refused or not
* `Session.respond` — one command line
* `Session.opening`, `prompt`, `Session.transcript` — all that is printed
-/

namespace Sentential

open Text

/-- A step that the last search found. -/
abbrev Offer := Step

/-- A proof, the selected lines, and the offers of the last search. -/
structure Session where
  proof : Proof
  selected : List Nat := []
  offers : List Offer := []

/-! ## What is printed -/

/-- The commands, one on a line. -/
def commandHelp : String :=
  "\n".intercalate
    [ "Commands (lines are numbered from 1):",
      "  select <line>...          choose lines for argument forms",
      "  forms                     list argument forms for the selection",
      "  rules <line> [i,j,...]    list replacement rules for a line or a fragment of it",
      "  take <option>             add the listed option as a new line",
      "  fill <line> <statement>   replace the placeholder % on a line",
      "  delete <line>             remove a line nothing depends on",
      "  show                      print the proof",
      "  explain                   print the proof as a tree",
      "  quit                      leave" ]

/-- The names of the operators with their glyphs, tightest first. -/
def operatorGlyphs : List (String × List String) :=
  ("negation", negationGlyphs) :: Connective.all.map fun c => (c.name, c.glyphs)

/-- The commands and the operators. -/
def helpText : String :=
  commandHelp ++ "\n\nOperators, loosest binding last:\n" ++
    String.join (operatorGlyphs.map fun (name, glyphs) =>
      "  " ++ Proof.padRight 14 name ++ " " ++ "  ".intercalate glyphs ++ "\n")

/-- What stands before every command line. -/
def prompt : String := "> "

namespace Session

/-- The proof, and that it is complete if it is. -/
def display (medium : Medium) (s : Session) : String :=
  s.proof.text ++ "\n" ++
    if s.proof.isComplete then medium.paint (Style.coloured .green).inBold "Proof complete." ++ "\n" else ""

/-- The offers, numbered from one. -/
def displayOffers (medium : Medium) (s : Session) : String :=
  if s.offers.isEmpty then "Nothing applies.\n"
  else String.join (s.offers.zipIdx.map fun (offer, i) =>
    s!"  [{i + 1}] " ++ medium.paint (.coloured .green) offer.statement.text ++ "    " ++ offer.rule ++ "\n")

/-! ## Commands -/

/-- The offers of matching argument forms from the selected lines. -/
def formOffers (selected : List Nat) (found : List FormMatch) : List Offer :=
  found.flatMap fun m => m.derived.map fun d => ⟨d, m.form.abbreviation, selected⟩

/-- The offers of matching replacement rules on a line: the whole statements, read again. -/
def ruleOffers (line : Nat) (found : List RuleMatch) : Except SessionError (List Offer) :=
  (found.flatMap fun m => m.spliced.map fun whole => (whole, m.rule.abbreviation)).mapM fun (whole, rule) =>
    match Statement.parse whole with
    | .ok s => .ok ⟨Draft.ofStatement s, rule, [line]⟩
    | .error fault => .error (.unreadable fault)

/-- The offer with a number that counts from one. -/
def offer? (s : Session) (option : String) : Option Offer :=
  match readLine option with
  | .ok i => s.offers[i]?
  | .error _ => none

/-- A refusal of the proof as a refusal of the session. -/
def ofProof {α : Type} : Except ProofError α → Except SessionError α
  | .ok a => .ok a
  | .error refusal => .error (.proof refusal)

/-- The session after a command and what it prints, unless the command is refused. -/
def execute (medium : Medium) (s : Session) : Command → Except SessionError (Session × String)
  | .nothing => .ok (s, "")
  | .select lines => do
    let _ ← ofProof (lines.mapM s.proof.line)
    return ({ s with selected := lines }, "")
  | .forms => do
    if s.selected.isEmpty then
      throw .nothingSelected
    let (found, _) ← ofProof (s.proof.argumentForms medium s.selected {})
    let s := { s with offers := formOffers s.selected found }
    return (s, s.displayOffers medium)
  | .rules line path => do
    let (found, _) ← ofProof (s.proof.replacementRules medium line path {})
    let offers ← ruleOffers line found
    let s := { s with offers }
    return (s, s.displayOffers medium)
  | .take option =>
    match s.offer? option with
    | none => .error (.noOption option)
    | some offer => do
      let proof ← ofProof (s.proof.push offer)
      let s := { s with proof, offers := [] }
      return (s, s.display medium)
  | .fill line filling => do
    let proof ← ofProof (s.proof.fill line filling)
    let s := { s with proof }
    return (s, s.display medium)
  | .delete line => do
    let (_, proof) ← ofProof (s.proof.remove line)
    let s : Session := { proof }
    return (s, s.display medium)
  | .display => .ok (s, s.display medium)
  | .explain => .ok (s, (s.proof.explain {}).text ++ "\n")
  | .help => .ok (s, helpText)
  | .leave => .ok (s, "")

/-- The session after a command. A refused command changes nothing. -/
def after (medium : Medium) (s : Session) (c : Command) : Session :=
  match s.execute medium c with
  | .ok (s, _) => s
  | .error _ => s

/-- What a command line leads to. -/
inductive Response where
  | ended
  | done (session : Session) (output : String)
  | refused (refusal : SessionError)

/-- The response to a command line. -/
def respond (medium : Medium) (s : Session) (input : String) : Response :=
  match Command.ofLine input with
  | .error refusal => .refused refusal
  | .ok .leave => .ended
  | .ok c =>
    match s.execute medium c with
    | .ok (s, output) => .done s output
    | .error refusal => .refused refusal

/-- A refusal as it is printed. -/
def refusalText (medium : Medium) (refusal : SessionError) : String :=
  medium.paint (.coloured .red) refusal.message ++ "\n"

/-! ## Whole sessions -/

/-- A session at its start, from the texts of the premises and the conclusion. -/
def start (premises : List String) (conclusion : String) : Except ProofError Session :=
  (Proof.parse premises conclusion).map fun proof => { proof }

/-- What is printed at the start. The premises are shown as they were given. -/
def opening (medium : Medium) (premises : List String) (s : Session) : String :=
  "Proving " ++ medium.paint (Style.coloured .blue).inBold s.proof.conclusion.text ++ " from " ++
    ", ".intercalate premises ++ "\n" ++ helpText ++ "\n" ++ s.display medium

/-- What a session prints on command lines: results, and refusals apart from them. -/
def transcript (medium : Medium) (s : Session) : List String → String × String
  | [] => (prompt, "")
  | input :: rest =>
    match s.respond medium input with
    | .ended => (prompt, "")
    | .done s output =>
      let (outputs, refusals) := s.transcript medium rest
      (prompt ++ output ++ outputs, refusals)
    | .refused refusal =>
      let (outputs, refusals) := s.transcript medium rest
      (prompt ++ outputs, refusalText medium refusal ++ refusals)

end Session

/-- The lines of an input. A line feed ends a line, and the last line may lack it. -/
def inputLines (input : String) : List String :=
  let lines := fields '\n' input
  if lines.getLast? = some "" then lines.dropLast else lines

end Sentential
