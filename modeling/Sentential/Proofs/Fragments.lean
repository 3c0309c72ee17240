import Sentential.Proofs.Drafts
import Sentential.Proofs.Meaning
import Sentential.Proofs.Paths

/-!
# `Sentential.Proofs.Fragments` — a fragment and the statement around it

Where a fragment is found, the rest of the statement is a draft with a placeholder in the fragment's place,
and replacing the fragment is filling the draft (`exists_surrounding`). What is known of filling then says
what replacing does to values and symbols.

## Contents
* `exists_surrounding` — the statement around a fragment
* `replace?_equivalent`, `mem_leaves_replace?` — replacing by an equivalent fragment with the same symbols
* `mem_leaves_of_fragment?` — the leaves of a fragment
-/

namespace Sentential

namespace Formula

variable {α : Type} {path : Path} {f : Formula α}

/-- A leaf of a fragment is one of the formula's. -/
theorem mem_leaves_of_fragment? {g : Formula α} (h : f.fragment? path = some g) {a : α} (ha : a ∈ g.leaves) :
    a ∈ f.leaves := by
  induction path generalizing f with
  | nil =>
    obtain rfl := Option.some.inj h
    exact ha
  | cons i rest ih =>
    obtain ⟨child, hchild, hrest⟩ := Option.bind_eq_some_iff.mp h
    have hmem := List.mem_of_getElem? hchild
    have hleaf := ih hrest
    cases f with
    | atom _ => exact absurd hmem List.not_mem_nil
    | negation f =>
      obtain rfl := List.mem_singleton.mp hmem
      exact hleaf
    | binary c f f' =>
      simp only [children, List.mem_cons, List.not_mem_nil, or_false] at hmem
      rcases hmem with rfl | rfl
      · exact List.mem_append_left _ hleaf
      · exact List.mem_append_right _ hleaf

end Formula

/-- A statement with a draft for one operand is filled in that operand. -/
theorem Draft.fill_setChild (f : Statement) (i : Nat) (around : Draft) (filling : Statement) :
    Draft.fill ((Draft.ofStatement f).setChild i around) filling = f.setChild i (around.fill filling) := by
  have hfill : ∀ (p : Prop) [Decidable p] (g : Statement),
      Draft.fill (if p then around else Draft.ofStatement g) filling = if p then around.fill filling else g := by
    intro p _ g
    split
    · rfl
    · exact Draft.fill_ofStatement g filling
  cases f with
  | atom a => rfl
  | negation g => exact congrArg Formula.negation (hfill _ g)
  | binary c g g' =>
    show Formula.binary c (Draft.fill (if i = 0 then around else Draft.ofStatement g) filling)
      (Draft.fill (if i = 1 then around else Draft.ofStatement g') filling) = _
    rw [hfill, hfill]
    rfl

namespace Statement

/-- **The statement around a fragment.** It is a draft, and both the statement itself and every replacement
    at the path come from filling it. -/
theorem exists_surrounding {path : Path} {f g : Statement} (h : f.fragment? path = some g) :
    ∃ around : Draft, around.fill g = f ∧ ∀ new, f.replace? path new = some (around.fill new) := by
  induction path generalizing f with
  | nil =>
    obtain rfl := Option.some.inj h
    exact ⟨Draft.placeholder, rfl, fun new => rfl⟩
  | cons i rest ih =>
    obtain ⟨child, hchild, hrest⟩ := Option.bind_eq_some_iff.mp h
    obtain ⟨around, hself, hreplace⟩ := ih hrest
    -- around the fragment of an operand there is the rest of the operand, and the other operands
    refine ⟨(Draft.ofStatement f).setChild i around, ?_, fun new => ?_⟩
    · rw [Draft.fill_setChild, hself, Formula.setChild_self hchild]
    · rw [Formula.replace?_cons, hchild, Option.bind_some, hreplace, Option.map_some, Draft.fill_setChild]

variable {path : Path} {f g new whole : Statement}

/-- Replacing a fragment by an equivalent one gives an equivalent statement. -/
theorem replace?_equivalent (h : f.fragment? path = some g) (hwhole : f.replace? path new = some whole)
    (heq : Equivalent g new) : Equivalent f whole := by
  obtain ⟨around, rfl, hreplace⟩ := exists_surrounding h
  obtain rfl := Option.some.inj ((hreplace new).symm.trans hwhole)
  intro v
  rw [Draft.eval_fill, Draft.eval_fill, heq v]

/-- Replacing a fragment by one with the same symbols keeps the symbols. -/
theorem mem_leaves_replace? (h : f.fragment? path = some g) (hwhole : f.replace? path new = some whole)
    (hleaves : ∀ s, s ∈ new.leaves ↔ s ∈ g.leaves) (s : Symbol) : s ∈ whole.leaves ↔ s ∈ f.leaves := by
  obtain ⟨around, rfl, hreplace⟩ := exists_surrounding h
  obtain rfl := Option.some.inj ((hreplace new).symm.trans hwhole)
  rw [Draft.mem_leaves_fill, Draft.mem_leaves_fill, hleaves s]

end Statement

end Sentential
