import Sentential.Formula.Printer

/-!
# `Sentential.Outline` — labelled trees drawn with lines

An outline is a tree of labels. It is drawn with the root on the first line and every other label on a line
of its own, behind the lines that connect it to its parent and its later neighbours.

## Contents
* `Outline` — the tree
* `Outline.lines`, `Outline.text` — its drawing, line by line and as a whole
* `Formula.outline` — the tree of a formula's tokens
-/

namespace Sentential

/-- A tree of labels. -/
inductive Outline where
  | node (label : String) (children : List Outline)

namespace Outline

mutual

/-- The lines of a child and all below it, behind the lines drawn by its ancestors. -/
def childLines (ancestors : String) (isLast : Bool) : Outline → List String
  | node label children =>
    (ancestors ++ (if isLast then "└── " else "├── ") ++ label) ::
      childrenLines (ancestors ++ (if isLast then "    " else "│   ")) children

/-- The lines of neighbours and all below them. -/
def childrenLines (ancestors : String) : List Outline → List String
  | [] => []
  | child :: rest => childLines ancestors rest.isEmpty child ++ childrenLines ancestors rest

end

/-- The lines of the whole tree, one for each label. -/
def lines : Outline → List String
  | node label children => label :: childrenLines "" children

/-- The drawing of the whole tree. -/
def text (o : Outline) : String := String.join (o.lines.map (· ++ "\n"))

end Outline

/-- The tree of a formula's tokens. -/
def Formula.outline {α : Type} [Leaf α] : Formula α → Outline
  | f@(atom _) => .node f.token []
  | f@(negation g) => .node f.token [g.outline]
  | f@(binary _ g h) => .node f.token [g.outline, h.outline]

end Sentential
