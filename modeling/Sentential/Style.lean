/-!
# `Sentential.Style` — colours and weights of output text

A piece of output may be coloured and emphasized. How that is written depends on the **medium**: as plain
text, where styles do not show; for a terminal, as escape sequences around the text; or as HTML inside
Markdown, where only the foreground colour and boldness survive.

## Contents
* `Colour`, `Style`, `Effect` — what can be said about a piece of text, and changes of it
* `Colour.named` — colours by name
* `Style.escape` — the escape sequence of a style
* `html` — the text with its style as HTML
* `Medium`, `Medium.paint` — the text as the medium shows it
-/

namespace Sentential

/-! ## Styles -/

/-- The basic colours. -/
inductive Hue where
  | black
  | red
  | green
  | yellow
  | blue
  | magenta
  | cyan
  | white
  deriving DecidableEq

/-- A colour: a basic one, dark or bright, or any mixture of red, green and blue. -/
inductive Colour where
  | basic (hue : Hue)
  | bright (hue : Hue)
  | mixed (red green blue : Nat)
  deriving DecidableEq

/-- How a piece of text is shown. -/
structure Style where
  foreground : Option Colour := none
  background : Option Colour := none
  bold : Bool := false
  italic : Bool := false
  underline : Bool := false
  deriving DecidableEq

namespace Style

/-- Text as it is. -/
def plain : Style := {}

/-- A foreground colour. -/
def coloured (hue : Hue) : Style := { foreground := some (.basic hue) }

/-- The style in bold. -/
def inBold (s : Style) : Style := { s with bold := true }

end Style

/-- A change of style. -/
inductive Effect where
  | bold
  | italic
  | underline
  | background (colour : Colour)
  | foreground (colour : Colour)
  /-- Back to text as it is. -/
  | clear

/-- The style after a change. -/
def Style.apply (s : Style) : Effect → Style
  | .bold => { s with bold := true }
  | .italic => { s with italic := true }
  | .underline => { s with underline := true }
  | .background c => { s with background := some c }
  | .foreground c => { s with foreground := some c }
  | .clear => Style.plain

/-- The basic colours by name. -/
def Hue.names : List (String × Hue) :=
  [("black", .black), ("red", .red), ("green", .green), ("yellow", .yellow), ("blue", .blue),
    ("magenta", .magenta), ("cyan", .cyan), ("white", .white)]

/-- The lower case of a character where that is a single ASCII letter. Besides the ASCII capitals only the
    Kelvin sign has one, which is `k`; every other character stays. -/
def lowerLetter (c : Char) : Char :=
  if c = '\u212A' then 'k' else c.toLower

/-- The colour of a name, in any case; bright ones have `bright` and a space before the hue, purple is
    another name of magenta, and an unknown name is white. -/
def Colour.named (name : String) : Colour :=
  let brights := Hue.names.map fun (n, h) => ("bright " ++ n, bright h)
  let basics := ("purple", basic .magenta) :: Hue.names.map fun (n, h) => (n, basic h)
  ((basics ++ brights).lookup (name.map lowerLetter)).getD (basic .white)

/-! ## Terminals -/

/-- The number of a hue among the basic colours of a terminal. -/
def Hue.number : Hue → Nat
  | black => 0
  | red => 1
  | green => 2
  | yellow => 3
  | blue => 4
  | magenta => 5
  | cyan => 6
  | white => 7

/-- The terminal's code of a colour, counted from the base of the layer that it colours. -/
def Colour.code (base : Nat) : Colour → String
  | basic h => toString (base + h.number)
  | bright h => toString (base + 60 + h.number)
  | mixed r g b => s!"{base + 8};2;{r};{g};{b}"

/-- The codes of a style: weights first, then the background, then the foreground. -/
def Style.codes (s : Style) : List String :=
  (if s.bold then ["1"] else []) ++ (if s.italic then ["3"] else []) ++
    (if s.underline then ["4"] else []) ++ (s.background.map (Colour.code 40)).toList ++
    (s.foreground.map (Colour.code 30)).toList

/-- The escape sequence that turns a style on. -/
def Style.escape (s : Style) : String := "\x1b[" ++ ";".intercalate s.codes ++ "m"

/-- The escape sequence that turns all styles off. -/
def escapeReset : String := "\x1b[0m"

/-- A text in which `again` follows every reset, so that an outer style survives an inner one. -/
def afterResets (again : List Char) : List Char → List Char
  | '\x1b' :: '[' :: '0' :: 'm' :: rest => '\x1b' :: '[' :: '0' :: 'm' :: (again ++ afterResets again rest)
  | c :: rest => c :: afterResets again rest
  | [] => []

/-- The text as a terminal shows it in a style. -/
def terminal (s : Style) (text : String) : String :=
  if s = Style.plain then text
  else s.escape ++ String.ofList (afterResets s.escape.toList text.toList) ++ escapeReset

/-! ## HTML -/

/-- The name of a colour in HTML. Dark and bright colours are alike; light and mixed ones are left to the
    surroundings. -/
def Colour.html : Colour → String
  | basic h | bright h =>
    match h with
    | .black => "black"
    | .red => "red"
    | .green => "green"
    | .yellow => "goldenrod"
    | .blue => "blue"
    | .magenta => "magenta"
    | .cyan => "darkcyan"
    | .white => "inherit"
  | mixed _ _ _ => "inherit"

/-- The text with its foreground colour and boldness as HTML. -/
def html (s : Style) (text : String) : String :=
  let text := if s.bold then "<b>" ++ text ++ "</b>" else text
  match s.foreground with
  | some colour => "<span style=\"color: " ++ colour.html ++ ";\">" ++ text ++ "</span>"
  | none => text

/-! ## Media -/

/-- Where output goes. -/
inductive Medium where
  | plain
  | terminal
  | html
  deriving DecidableEq

/-- The text as a medium shows it in a style. -/
def Medium.paint : Medium → Style → String → String
  | plain, _, text => text
  | terminal, s, text => Sentential.terminal s text
  | html, s, text => Sentential.html s text

end Sentential
