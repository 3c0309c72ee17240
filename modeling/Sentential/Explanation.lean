import Sentential.Outline

/-!
# `Sentential.Explanation` — how a result was reached

A search tells what it tried in an **explanation**: a title and notes under it. A note is a step, which is
one line of text, or a topic with notes of its own. A step that only repeats the note right before it is not
written down again.

## Contents
* `Note`, `Explanation`
* `Explanation.step`, `Explanation.topic`, `Explanation.steps` — writing notes down
* `Explanation.lines`, `Explanation.topicCount` — reading them
* `Explanation.outline`, `Explanation.text` — the drawing
-/

namespace Sentential

/-- A line of text, or a topic with its own notes. -/
inductive Note where
  | step (text : String)
  | topic (title : String) (notes : List Note)

/-- A title with notes under it. -/
structure Explanation where
  title : String := ""
  notes : List Note := []

namespace Note

/-- The note is the step with this text. -/
def isStep (text : String) : Note → Bool
  | step t => t == text
  | topic _ _ => false

mutual

/-- The steps of a note, depth first. -/
def lines : Note → List String
  | step t => [t]
  | topic _ notes => linesOfAll notes

/-- The steps of notes, depth first. -/
def linesOfAll : List Note → List String
  | [] => []
  | note :: rest => note.lines ++ linesOfAll rest

end

mutual

/-- The note as a tree of labels. -/
def outline : Note → Outline
  | step t => .node t []
  | topic title notes => .node title (outlines notes)

/-- The notes as trees of labels. -/
def outlines : List Note → List Outline
  | [] => []
  | note :: rest => note.outline :: outlines rest

end

end Note

namespace Explanation

/-- An explanation without notes. -/
def titled (title : String) : Explanation := { title }

/-! ## Writing -/

/-- A step written down, unless it only repeats the note right before it. -/
def step (e : Explanation) (text : String) : Explanation :=
  if e.notes.getLast?.any (Note.isStep text) then e else { e with notes := e.notes ++ [.step text] }

/-- Several steps written down in turn. -/
def steps (e : Explanation) (texts : List String) : Explanation := texts.foldl step e

/-- An explanation written down as a topic of another. -/
def topic (e : Explanation) (part : Explanation) : Explanation :=
  { e with notes := e.notes ++ [.topic part.title part.notes] }

/-- Several explanations written down as topics of another. -/
def topics (e : Explanation) (parts : List Explanation) : Explanation := parts.foldl topic e

/-! ## Reading -/

/-- The steps of the explanation, depth first. -/
def lines (e : Explanation) : List String := Note.linesOfAll e.notes

/-- The number of topics right under the title. -/
def topicCount (e : Explanation) : Nat :=
  e.notes.countP fun
    | .topic _ _ => true
    | .step _ => false

/-- The explanation as a tree of labels. -/
def outline (e : Explanation) : Outline := .node e.title (Note.outlines e.notes)

/-- The drawing of the explanation. -/
def text (e : Explanation) : String := e.outline.text

end Explanation

end Sentential
