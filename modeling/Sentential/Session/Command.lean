import Sentential.Proof
import Sentential.Text.Number
import Sentential.Text.Words

/-!
# `Sentential.Session.Command` — the commands of a proof session

A command line is a command's name and, after the first space, its arguments. The command line is read
completely before anything is done, and the first fault is the answer. In commands, lines are counted from
one.

## Contents
* `Command`, `SessionError` — what can be asked for, and why it may be refused
* `Command.ofLine` — reading a command line
-/

namespace Sentential

open Text

/-- A request to a proof session; lines are counted from zero. -/
inductive Command where
  | nothing
  /-- Choose lines for argument forms. -/
  | select (lines : List Nat)
  /-- List what the argument forms infer from the chosen lines. -/
  | forms
  /-- List what the replacement rules make of a fragment of a line. -/
  | rules (line : Nat) (path : Path)
  /-- Add a listed option to the proof. -/
  | take (option : String)
  /-- Replace the placeholders of a line. -/
  | fill (line : Nat) (filling : Statement)
  /-- Remove a line. -/
  | delete (line : Nat)
  /-- Print the proof. -/
  | display
  /-- Print the proof as a tree. -/
  | explain
  | help
  /-- End the session. -/
  | leave

/-- Why a command is refused. -/
inductive SessionError where
  | notALineNumber (text : String) (cause : NumberError)
  | linesStartAtOne
  | notAChildIndex (text : String) (cause : NumberError)
  | rulesUsage
  | fillUsage
  | nothingSelected
  | noOption (option : String)
  | unknownCommand (name : String)
  /-- A text of the command line is no sentence. -/
  | malformed (source : String) (fault : SyntaxError)
  /-- A listed text is no sentence. -/
  | unreadable (fault : SyntaxError)
  | proof (refusal : ProofError)

/-- The wording of a refusal. -/
def SessionError.message : SessionError → String
  | notALineNumber text cause => s!"\"{text}\" is not a line number: {cause.message}"
  | linesStartAtOne => "Lines are numbered from 1"
  | notAChildIndex text cause => s!"\"{text}\" is not a child index: {cause.message}"
  | rulesUsage => "Usage: rules <line> [i,j,...]"
  | fillUsage => "Usage: fill <line> <statement>"
  | nothingSelected => "Select at least one line first"
  | noOption option => s!"There is no option {option}"
  | unknownCommand name => s!"Unknown command \"{name}\"; type help for a list"
  | malformed source fault => fault.messageWithCaret source
  | unreadable fault => fault.message
  | proof refusal => refusal.message

/-- A line as it is counted from zero, from a number that counts from one. -/
def readLine (text : String) : Except SessionError Nat :=
  match readNumber text with
  | .error cause => .error (.notALineNumber text cause)
  | .ok 0 => .error .linesStartAtOne
  | .ok (n + 1) => .ok n

/-- A child index. -/
def readIndex (text : String) : Except SessionError Nat :=
  match readNumber text with
  | .error cause => .error (.notAChildIndex text cause)
  | .ok n => .ok n

/-- The child indices in arguments, each of which may hold several with commas between them. -/
def readPath (arguments : List String) : Except SessionError Path :=
  ((arguments.flatMap (fields ',')).filter (!·.isEmpty)).mapM readIndex

/-- The text before the first space and the text after it, if there is a space. -/
def splitWord (text : String) : Option (String × String) :=
  (splitFirst ' ' text.toList).map fun (before, after) => (String.ofList before, String.ofList after)

namespace Command

/-- The arguments of `rules`. -/
def rulesOf : List String → Except SessionError Command
  | [] => .error .rulesUsage
  | line :: path => do
    let line ← readLine line
    let path ← readPath path
    return .rules line path

/-- The arguments of `fill`. -/
def fillOf (arguments : String) : Except SessionError Command :=
  match splitWord arguments with
  | none => .error .fillUsage
  | some (line, filling) => do
    let line ← readLine line
    let filling := trim filling
    match Statement.parse filling with
    | .ok s => return .fill line s
    | .error fault => throw (.malformed filling fault)

/-- The command on a line. -/
def ofLine (input : String) : Except SessionError Command :=
  let input := trim input
  let (name, rest) := (splitWord input).getD (input, "")
  match name with
  | "" => .ok .nothing
  | "select" => ((words rest).mapM readLine).map .select
  | "forms" => .ok .forms
  | "rules" => rulesOf (words rest)
  | "take" => .ok (.take (trim rest))
  | "fill" => fillOf (trim rest)
  | "delete" => (readLine (trim rest)).map .delete
  | "show" => .ok .display
  | "explain" => .ok .explain
  | "help" => .ok .help
  | "quit" | "exit" => .ok .leave
  | other => .error (.unknownCommand other)

end Command

end Sentential
