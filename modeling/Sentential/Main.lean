import Sentential.CommandLine.Answer

/-!
# `Sentential.Main` — the program

Reads the arguments, prints the answer and ends with its exit code. A session is led line by line, so that
every reply is seen before the next command is typed.
-/

namespace Sentential

/-- A variable of the environment that is set and not `0`. -/
def isEnabled (name : String) : IO Bool := do
  return (← IO.getEnv name).any (· != "0")

/-- Whether the output shows colours: on a terminal unless it is refused, and wherever it is forced. -/
def wantsColour : IO Bool := do
  if ← isEnabled "CLICOLOR_FORCE" then return true
  if (← IO.getEnv "NO_COLOR").isSome then return false
  let allowed := ((← IO.getEnv "CLICOLOR").getD "1") != "0"
  return allowed && (← (← IO.getStdout).isTty)

/-- A session led from the input until it ends. -/
partial def lead (medium : Medium) (s : Session) : IO Unit := do
  IO.print prompt
  (← IO.getStdout).flush
  let input ← (← IO.getStdin).getLine
  if input.isEmpty then return
  match s.respond medium input with
  | .ended => return
  | .done s output =>
    IO.print output
    lead medium s
  | .refused refusal =>
    IO.eprint (Session.refusalText medium refusal)
    lead medium s

/-- Both texts of an outcome printed, and its exit code. -/
def conclude (o : Outcome) : IO UInt32 := do
  IO.print o.output
  IO.eprint o.errors
  return o.code.toUInt32

end Sentential

open Sentential in
/-- The program. -/
def main (arguments : List String) : IO UInt32 := do
  let colour ← wantsColour
  match Invocation.ofArguments? arguments with
  | some { markdown, request := .prove sources, .. } =>
    let out := Output.of colour markdown
    let (premises, conclusion) := splitLast sources
    match Session.start premises conclusion with
    | .error refusal => conclude (sessionFailure refusal)
    | .ok s =>
      IO.print (s.opening out.page premises)
      lead out.page s
      return 0
  | _ => conclude (answer colour arguments "")
