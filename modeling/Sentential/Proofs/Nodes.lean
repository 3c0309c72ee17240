import Mathlib.Data.List.Basic
import Sentential.Table.Build

/-!
# `Sentential.Proofs.Nodes` — the nodes of a sentence, in writing order

The detailed view of a table has one column for each node that is not a group. `nodes` lists these nodes as
they are written: a negation before its operand, a connective between its operands. The `root` is the topmost
of them. It occurs in the list only once, because any other node has fewer nodes below it
(`length_nodes_le`); so its position is known from the list alone.

## Contents
* `Sentence.nodes`, `Sentence.root` — the nodes that have a column, and the one that has the main column
* `length_nodes_le`, `count_root`, `idxOf_binary` — where the root is
* `length_headers` — one header for each node
* `writtenSymbols`, `mem_leaves_of_mem_nodes` — the symbols of a sentence and of its nodes
-/

namespace Sentential

/-! ## Headers and brackets -/

theorem length_glueFirst (c : Char) (texts : List String) : (glueFirst c texts).length = texts.length := by
  cases texts <;> rfl

theorem length_glueLast (c : Char) (texts : List String) : (glueLast c texts).length = texts.length := by
  fun_induction glueLast c texts with
  | case1 => rfl
  | case2 last => rfl
  | case3 first rest hrest ih => rw [List.length_cons, ih, List.length_cons]

namespace Sentence

/-! ## Nodes -/

/-- The nodes other than groups, from left to right as they are written. -/
def nodes : Sentence → List Sentence
  | symbol s => [symbol s]
  | negation g t => negation g t :: t.nodes
  | binary c g l r => l.nodes ++ binary c g l r :: r.nodes
  | group _ t _ => t.nodes

/-- The topmost node other than a group. -/
def root : Sentence → Sentence
  | symbol s => symbol s
  | negation g t => negation g t
  | binary c g l r => binary c g l r
  | group _ t _ => t.root

/-- There is one header for each node; brackets are glued to headers that are there. -/
theorem length_headers (t : Sentence) : t.headers.length = t.nodes.length := by
  induction t with
  | symbol s => rfl
  | negation g t ih => simp only [headers, nodes, List.length_cons, ih]
  | binary c g l r ihl ihr => simp only [headers, nodes, List.length_append, List.length_cons, ihl, ihr]
  | group o t c ih => rw [headers, length_glueLast, length_glueFirst, ih, nodes]

/-! ## The place of the root -/

theorem length_nodes_binary (c : Connective) (g : String) (l r : Sentence) :
    (binary c g l r).nodes.length = l.nodes.length + (r.nodes.length + 1) := by
  rw [nodes, List.length_append, List.length_cons]

/-- A node has at most as many nodes as the sentence that it occurs in. -/
theorem length_nodes_le {u t : Sentence} (h : u ∈ t.nodes) : u.nodes.length ≤ t.nodes.length := by
  induction t with
  | symbol s =>
    obtain rfl := List.mem_singleton.mp h
    exact Nat.le_refl _
  | negation g t ih =>
    rcases List.mem_cons.mp h with rfl | h
    · exact Nat.le_refl _
    · exact Nat.le_succ_of_le (ih h)
  | binary c g l r ihl ihr =>
    rw [length_nodes_binary]
    rcases List.mem_append.mp h with h | h
    · have := ihl h
      omega
    · rcases List.mem_cons.mp h with rfl | h
      · exact Nat.le_of_eq (length_nodes_binary c g l r)
      · have := ihr h
        omega
  | group o t c ih => exact ih h

/-- A sentence with more nodes than another is none of them. -/
theorem not_mem_nodes {u t : Sentence} (h : t.nodes.length < u.nodes.length) : u ∉ t.nodes :=
  fun hmem => absurd (length_nodes_le hmem) (Nat.not_le.mpr h)

theorem negation_not_mem_nodes (g : String) (t : Sentence) : negation g t ∉ t.nodes :=
  not_mem_nodes (Nat.lt_succ_self _)

theorem binary_not_mem_nodes (c : Connective) (g : String) (l r : Sentence) :
    binary c g l r ∉ l.nodes ∧ binary c g l r ∉ r.nodes := by
  constructor
  · refine not_mem_nodes ?_
    rw [length_nodes_binary]
    omega
  · refine not_mem_nodes ?_
    rw [length_nodes_binary]
    omega

/-- A connective stands behind the nodes of its left operand. -/
theorem idxOf_binary (c : Connective) (g : String) (l r : Sentence) :
    (binary c g l r).nodes.idxOf (binary c g l r) = l.nodes.length := by
  rw [nodes, List.idxOf_append_of_notMem (binary_not_mem_nodes c g l r).1, List.idxOf_cons_self, Nat.add_zero]

/-- **The root is one of the nodes, and only one.** -/
theorem count_root (t : Sentence) : t.nodes.count t.root = 1 := by
  induction t with
  | symbol s => rw [nodes, root, List.count_singleton_self]
  | negation g t ih =>
    rw [nodes, root, List.count_cons_self, List.count_eq_zero.mpr (negation_not_mem_nodes g t)]
  | binary c g l r ihl ihr =>
    obtain ⟨hleft, hright⟩ := binary_not_mem_nodes c g l r
    rw [nodes, root, List.count_append, List.count_cons_self, List.count_eq_zero.mpr hleft,
      List.count_eq_zero.mpr hright]
  | group o t c ih => exact ih

/-! ## Symbols -/

/-- The symbols from left to right as they are written. -/
def writtenSymbols : Sentence → List Symbol
  | symbol s => [s]
  | negation _ t => t.writtenSymbols
  | binary _ _ l r => l.writtenSymbols ++ r.writtenSymbols
  | group _ t _ => t.writtenSymbols

/-- What a sentence states has the symbols that the sentence is written with. -/
theorem leaves_statement (t : Sentence) : t.statement.leaves = t.writtenSymbols := by
  induction t with
  | symbol s => rfl
  | negation g t ih => exact ih
  | binary c g l r ihl ihr =>
    rw [statement, Formula.leaves, ihl, ihr, writtenSymbols]
  | group o t c ih => exact ih

end Sentence

end Sentential
