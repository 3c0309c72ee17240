import Sentential.Table.Limit
import Sentential.Text.Number
import Sentential.Text.Words

/-!
# `Sentential.CommandLine.Arguments` — the arguments of the program

The program is called with a command and its arguments. Three options may stand before or after the command;
given on both sides, the later one counts, and given twice on one side it is a usage error, as is any other
option that may be given once. A command that takes several sentences wants at least two in a row wherever
options interrupt them.

Everything that starts with `-` is an option, except `-` itself and what stands after `--`. An option's value
is the next argument, or the rest of the same one after `=`.

## Contents
* `Request`, `Invocation` — what the program is asked for
* `OptionSet`, `Item`, `readItems` — arguments told apart
* `Invocation.ofArguments?` — reading all arguments, nothing on a usage error
-/

namespace Sentential

open Text

/-! ## Requests -/

/-- What the program is asked for. -/
inductive Request where
  /-- The table of a sentence, in the simple view if `simple`. -/
  | table (sentence : String) (simple : Bool)
  | compare (sentences : List String)
  /-- Check an argument whose conclusion is the last sentence. -/
  | argument (sentences : List String)
  /-- What argument forms infer from sentences. -/
  | derive (sentences : List String) (explain : Bool)
  /-- What replacement rules make of a fragment of a sentence. -/
  | replace (sentence : String) (path : List Nat) (explain : Bool)
  /-- A session about proving the last sentence from the others. -/
  | prove (sentences : List String)

/-- A request with the settings that hold for every request. -/
structure Invocation where
  limit : Limit
  /-- Report progress; there is nothing to report here. -/
  verbose : Bool
  /-- Print HTML inside Markdown in place of terminal colours. -/
  markdown : Bool
  request : Request

/-! ## Telling arguments apart -/

/-- The long names of the options that are known: those that stand alone, and those with a value. -/
structure OptionSet where
  flags : List String
  valued : List String

/-- A part of the arguments. -/
inductive Item where
  | flag (name : String)
  | valued (name value : String)
  | positional (text : String)

/-- The argument is an option. -/
def isOption (argument : String) : Bool := argument.startsWith "-" && argument != "-"

/-- The option in one argument that starts with two dashes, without a value that may follow. -/
def longOption (options : OptionSet) (body : String) : Option Item :=
  match splitFirst '=' body.toList with
  | none => if options.flags.contains body then some (.flag body) else none
  | some (name, value) =>
    let name := String.ofList name
    if options.valued.contains name then some (.valued name (String.ofList value)) else none

/-- The options in one argument that starts with one dash: `-v` is the only short option. -/
def shortOptions (body : String) : Option (List Item) :=
  if body.toList.all (· == 'v') then some (body.toList.map fun _ => .flag "verbose") else none

/-- Arguments told apart. `pending` is an option that waits for its value. -/
def readItems (options : OptionSet) (pending : Option String) : List String → Option (List Item)
  | [] => if pending.isSome then none else some []
  | argument :: rest =>
    match pending with
    | some name =>
      if isOption argument then none
      else (readItems options none rest).map (.valued name argument :: ·)
    | none =>
      if argument = "--" then some (rest.map .positional)
      else if argument.startsWith "--" then
        let body := String.ofList (argument.toList.drop 2)
        if options.valued.contains body then readItems options (some body) rest
        else match longOption options body, readItems options none rest with
          | some item, some items => some (item :: items)
          | _, _ => none
      else if isOption argument then
        match shortOptions (String.ofList (argument.toList.drop 1)), readItems options none rest with
        | some flags, some items => some (flags ++ items)
        | _, _ => none
      else (readItems options none rest).map (.positional argument :: ·)

/-- The runs of positional arguments that no option interrupts. -/
def positionalRuns : List Item → List (List String)
  | [] => []
  | .positional text :: .positional next :: rest => consRun text (positionalRuns (.positional next :: rest))
  | .positional text :: rest => [text] :: positionalRuns rest
  | _ :: rest => positionalRuns rest
where
  /-- A text in front of the first run. -/
  consRun (text : String) : List (List String) → List (List String)
    | [] => [[text]]
    | run :: rest => (text :: run) :: rest

/-- All positional arguments. -/
def positionals (items : List Item) : List String := (positionalRuns items).flatten

/-- Whether a flag is given, unless it is given twice. -/
def flag? (name : String) (items : List Item) : Option Bool :=
  match items.countP fun
    | .flag n => n == name
    | _ => false with
  | 0 => some false
  | 1 => some true
  | _ => none

/-- The values that an option is given, in turn. -/
def valuesOf (name : String) (items : List Item) : List String :=
  items.filterMap fun
    | .valued n value => if n = name then some value else none
    | _ => none

/-! ## Commands -/

/-- The options that may stand on both sides of the command. -/
def sharedOptions : OptionSet := ⟨["verbose", "markdown"], ["max-variables"]⟩

/-- The options with more flags and valued options. -/
def OptionSet.with (options : OptionSet) (flags valued : List String) : OptionSet :=
  ⟨options.flags ++ flags, options.valued ++ valued⟩

/-- The settings of one side of the command. -/
structure Settings where
  maxVariables : Option Nat
  verbose : Bool
  markdown : Bool

/-- A number as an option's value. -/
def number? (text : String) : Option Nat := (readNumber text).toOption

/-- The settings among the items of one side. -/
def Settings.ofItems? (items : List Item) : Option Settings := do
  let verbose ← flag? "verbose" items
  let markdown ← flag? "markdown" items
  match valuesOf "max-variables" items with
  | [] => return ⟨none, verbose, markdown⟩
  | [value] => return ⟨some (← number? value), verbose, markdown⟩
  | _ => none

/-- The only positional argument. -/
def single? (items : List Item) : Option String :=
  match positionals items with
  | [text] => some text
  | _ => none

/-- The positional arguments, at least two in every run. -/
def several? (items : List Item) : Option (List String) :=
  let runs := positionalRuns items
  if !runs.isEmpty && runs.all (2 ≤ ·.length) then some runs.flatten else none

/-- The child indices in values, each of which may hold several with commas between them. -/
def path? (values : List String) : Option (List Nat) :=
  (values.flatMap (fields ',')).mapM number?

/-- What a command asks for with the items after it. -/
def Request.ofItems? (command : String) (items : List Item) : Option Request :=
  match command with
  | "table" => do return .table (← single? items) (← flag? "simple" items)
  | "compare" => (several? items).map .compare
  | "argument" => (several? items).map .argument
  | "derive" => do
    let explain ← flag? "explain" items
    if (positionals items).isEmpty then none else return .derive (positionals items) explain
  | "replace" => do
    return .replace (← single? items) (← path? (valuesOf "path" items)) (← flag? "explain" items)
  | "prove" => (several? items).map .prove
  | _ => none

/-- The options that may stand after a command. -/
def optionsAfter (command : String) : OptionSet :=
  match command with
  | "table" => sharedOptions.with ["simple"] []
  | "derive" => sharedOptions.with ["explain"] []
  | "replace" => sharedOptions.with ["explain"] ["path"]
  | _ => sharedOptions

/-- The arguments before the command, the command, and the arguments after it. `pending` says that the next
    argument is an option's value. -/
def splitCommand (pending : Bool) : List String → Option (List String × String × List String)
  | [] => none
  | argument :: rest =>
    if pending || (isOption argument && argument != "--") then
      (splitCommand (!pending && argument == "--max-variables") rest).map fun (before, command, after) =>
        (argument :: before, command, after)
    else if argument = "--" then none
    else some ([], argument, rest)

/-- What the program is asked for by its arguments; nothing on a usage error. -/
def Invocation.ofArguments? (arguments : List String) : Option Invocation := do
  let (before, command, after) ← splitCommand false arguments
  let outer ← Settings.ofItems? (← readItems sharedOptions none before)
  let items ← readItems (optionsAfter command) none after
  let inner ← Settings.ofItems? items
  let request ← Request.ofItems? command items
  let limit := (inner.maxVariables.or outer.maxVariables).getD defaultMaxVariables
  return {
    limit := ⟨limit⟩
    verbose := outer.verbose || inner.verbose
    markdown := outer.markdown || inner.markdown
    request }

end Sentential
