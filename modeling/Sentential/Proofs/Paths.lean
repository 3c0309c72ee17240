import Sentential.Formula.Path
import Sentential.Formula.Printer

/-!
# `Sentential.Proofs.Paths` — looking and replacing obey the laws of a lens

`fragment?` goes down by counting operands, `replace?` by the shape of the formula and the index together. Neither
mentions the other, so that they might disagree on an index that leads nowhere. Side by side they are the same
descent: both pick an operand by its place among the `children`, and where `fragment?` goes on from it, `replace?`
goes on and puts the result back in that place (`replace?_cons`). Every law is then an induction on the path, and
what happens to one operand is a fact about one place of a list.

Two paths are **apart** if neither leads through the place of the other. They may run together for a while; where
they part, they lead into different operands, and what is done in one is not seen in the other. So the induction
goes down both paths at once, and the operands matter only where the paths part.

## Contents
* `setChild` — a formula with another operand in one place
* `replace?_cons` — one step down, as `fragment?` takes it
* `isSome_replace?`, `fragment?_replace?`, `replace?_fragment?`, `replace?_replace?` — one path
* `Path.Apart`, `fragment?_replace?_of_apart`, `replace?_comm` — two paths
* `Statement.LawfulAt`, `Statement.Independent`, `Statement.replace?_lawful` — the laws together
-/

namespace Sentential

/-! ## Operands -/

namespace Formula

variable {α : Type} {f g new whole : Formula α} {path : Path}

/-- The formula with another operand in one place, if it has an operand there. -/
def setChild (f : Formula α) (i : Nat) (new : Formula α) : Formula α :=
  match f with
  | atom a => atom a
  | negation g => negation (if i = 0 then new else g)
  | binary c g h => binary c (if i = 0 then new else g) (if i = 1 then new else h)

@[simp] theorem children_setChild (f : Formula α) (i : Nat) (new : Formula α) :
    (f.setChild i new).children = f.children.set i new := by
  match f, i with
  | atom _, _ => rfl
  | negation _, 0 => rfl
  | negation _, _ + 1 => rfl
  | binary _ _ _, 0 => rfl
  | binary _ _ _, 1 => rfl
  | binary _ _ _, _ + 2 => rfl

/-- Of two operands put in one place the second stays. -/
theorem setChild_setChild (f : Formula α) (i : Nat) (new other : Formula α) :
    (f.setChild i new).setChild i other = f.setChild i other := by
  cases f with
  | atom a => rfl
  | negation g => grind [setChild]
  | binary c g h => grind [setChild]

/-- Operands are put in different places in any sequence. -/
theorem setChild_comm (f : Formula α) {i j : Nat} (h : i ≠ j) (new other : Formula α) :
    (f.setChild i new).setChild j other = (f.setChild j other).setChild i new := by
  cases f with
  | atom a => rfl
  | negation g => grind [setChild]
  | binary c g g' => grind [setChild]

/-- An operand put where it was found changes nothing. -/
theorem setChild_self {i : Nat} (h : f.children[i]? = some g) : f.setChild i g = f := by
  match f, i, h with
  | negation _, 0, h => exact congrArg negation (Option.some.inj h).symm
  | binary c _ f', 0, h => exact congrArg (binary c · f') (Option.some.inj h).symm
  | binary c f' _, 1, h => exact congrArg (binary c f') (Option.some.inj h).symm

/-! ## One path -/

/-- **One step down, as `fragment?` takes it**: the operand is picked by its place, and put back in it. -/
theorem replace?_cons (i : Nat) (rest : Path) (f new : Formula α) :
    f.replace? (i :: rest) new =
      f.children[i]?.bind fun child => (child.replace? rest new).map (f.setChild i) := by
  match f, i with
  | atom _, 0 => rfl
  | atom _, 1 => rfl
  | atom _, _ + 2 => rfl
  | negation _, 0 => rfl
  | negation _, 1 => rfl
  | negation _, _ + 2 => rfl
  | binary _ _ _, 0 => rfl
  | binary _ _ _, 1 => rfl
  | binary _ _ _, _ + 2 => rfl

/-- What is replaced below the root is replaced in one operand. -/
theorem replace?_cons_eq_some {i : Nat} {rest : Path} (h : f.replace? (i :: rest) new = some whole) :
    ∃ child child', f.children[i]? = some child ∧ child.replace? rest new = some child' ∧
      f.setChild i child' = whole := by
  rw [replace?_cons] at h
  obtain ⟨child, hchild, h⟩ := Option.bind_eq_some_iff.mp h
  obtain ⟨child', hchild', h⟩ := Option.map_eq_some_iff.mp h
  exact ⟨child, child', hchild, hchild', h⟩

/-- An operand that was put in a place is found in it. -/
theorem getElem?_children_setChild {i : Nat} (h : f.children[i]? = some g) (new : Formula α) :
    (f.setChild i new).children[i]? = some new := by
  rw [children_setChild, List.getElem?_set_self (List.getElem?_eq_some_iff.mp h).1]

/-- What is replaced in an operand that was put in a place is put in the place instead. -/
theorem replace?_setChild {i : Nat} (h : f.children[i]? = some g) (child new : Formula α) (rest : Path) :
    (f.setChild i child).replace? (i :: rest) new = (child.replace? rest new).map (f.setChild i) := by
  have hagain : (f.setChild i child).setChild i = f.setChild i := funext (setChild_setChild f i child)
  rw [replace?_cons, getElem?_children_setChild h, Option.bind_some, hagain]

/-- **A fragment is replaced exactly where one is found.** -/
theorem isSome_replace? (path : Path) (f new : Formula α) :
    (f.replace? path new).isSome = (f.fragment? path).isSome := by
  induction path generalizing f with
  | nil => rfl
  | cons i rest ih =>
    rw [replace?_cons, fragment?]
    cases f.children[i]? with
    | none => rfl
    | some child =>
      show ((child.replace? rest new).map (f.setChild i)).isSome = (child.fragment? rest).isSome
      rw [Option.isSome_map, ih]

theorem replace?_eq_none_iff : f.replace? path new = none ↔ f.fragment? path = none := by
  rw [← Option.isNone_iff_eq_none, ← Option.isNone_iff_eq_none, ← Option.not_isSome, ← Option.not_isSome,
    isSome_replace?]

/-- What was put at a path is found there. -/
theorem fragment?_replace? (h : f.replace? path new = some whole) : whole.fragment? path = some new := by
  induction path generalizing f whole with
  | nil => exact h.symm
  | cons i rest ih =>
    obtain ⟨child, child', hchild, hreplace, rfl⟩ := replace?_cons_eq_some h
    rw [fragment?, getElem?_children_setChild hchild]
    exact ih hreplace

/-- A fragment put where it was found changes nothing. -/
theorem replace?_fragment? (h : f.fragment? path = some g) : f.replace? path g = some f := by
  induction path generalizing f with
  | nil => exact h.symm
  | cons i rest ih =>
    obtain ⟨child, hchild, hrest⟩ := Option.bind_eq_some_iff.mp h
    rw [replace?_cons, hchild, Option.bind_some, ih hrest, Option.map_some, setChild_self hchild]

/-- What is put at a path later takes the place of what was put there before. -/
theorem replace?_replace? (h : f.replace? path new = some whole) (other : Formula α) :
    whole.replace? path other = f.replace? path other := by
  induction path generalizing f whole with
  | nil => rfl
  | cons i rest ih =>
    obtain ⟨child, child', hchild, hreplace, rfl⟩ := replace?_cons_eq_some h
    rw [replace?_setChild hchild, ih hreplace, replace?_cons, hchild, Option.bind_some]

end Formula

/-! ## Two paths -/

/-- Neither path leads through the place of the other. -/
def Path.Apart (p q : Path) : Prop := ¬p <+: q ∧ ¬q <+: p

instance (p q : Path) : Decidable (p.Apart q) := inferInstanceAs (Decidable (_ ∧ _))

theorem Path.Apart.symm {p q : Path} (h : p.Apart q) : q.Apart p := ⟨h.2, h.1⟩

/-- Paths are apart if they part at once or, after a step in common, later. -/
theorem Path.apart_cons_iff {i j : Nat} {p q : Path} :
    Path.Apart (i :: p) (j :: q) ↔ i ≠ j ∨ Path.Apart p q := by
  unfold Apart
  rw [List.cons_prefix_cons, List.cons_prefix_cons]
  by_cases hij : i = j
  · simp [hij]
  · simp [hij, Ne.symm hij]

namespace Formula

variable {α : Type} {f new other whole : Formula α} {p q : Path}

/-- **What is found at a path apart from the place of a replacement is what was found there before**, and nothing
    is found if nothing was. -/
theorem fragment?_replace?_of_apart (hapart : p.Apart q) (h : f.replace? p new = some whole) :
    whole.fragment? q = f.fragment? q := by
  induction p generalizing f whole q with
  | nil => exact absurd List.nil_prefix hapart.1
  | cons i p ih =>
    cases q with
    | nil => exact absurd List.nil_prefix hapart.2
    | cons j q =>
      obtain ⟨child, child', hchild, hreplace, rfl⟩ := replace?_cons_eq_some h
      by_cases hij : i = j
      · -- both paths lead into one operand, and part in it
        subst hij
        have hlater : Path.Apart p q := (Path.apart_cons_iff.mp hapart).resolve_left (absurd rfl)
        rw [fragment?, fragment?, getElem?_children_setChild hchild, hchild]
        exact ih hlater hreplace
      · rw [fragment?, fragment?, children_setChild, List.getElem?_set_ne hij]

/-- Where both replacements have a result, the second has the same one after the first as the first after the
    second. -/
theorem replace?_replace?_of_apart {whole' : Formula α} (hapart : p.Apart q) (h : f.replace? p new = some whole)
    (h' : f.replace? q other = some whole') : whole.replace? q other = whole'.replace? p new := by
  induction p generalizing f whole whole' q with
  | nil => exact absurd List.nil_prefix hapart.1
  | cons i p ih =>
    cases q with
    | nil => exact absurd List.nil_prefix hapart.2
    | cons j q =>
      obtain ⟨a, a', ha, hreplace, rfl⟩ := replace?_cons_eq_some h
      obtain ⟨b, b', hb, hreplace', rfl⟩ := replace?_cons_eq_some h'
      by_cases hij : i = j
      · subst hij
        obtain rfl : a = b := Option.some.inj (ha.symm.trans hb)
        have hlater : Path.Apart p q := (Path.apart_cons_iff.mp hapart).resolve_left (absurd rfl)
        rw [replace?_setChild ha, replace?_setChild ha, ih hlater hreplace hreplace']
      · rw [replace?_cons, replace?_cons, children_setChild, children_setChild, List.getElem?_set_ne hij,
          List.getElem?_set_ne (Ne.symm hij), ha, hb, Option.bind_some, Option.bind_some, hreplace, hreplace',
          Option.map_some, Option.map_some, setChild_comm f hij]

/-- **Replacements at paths that are apart are made in any sequence.** Where one of them leads nowhere, neither
    sequence has a result. -/
theorem replace?_comm (hapart : p.Apart q) (f new other : Formula α) :
    (f.replace? p new).bind (·.replace? q other) = (f.replace? q other).bind (·.replace? p new) := by
  cases h : f.replace? p new with
  | none =>
    cases h' : f.replace? q other with
    | none => rfl
    | some whole' =>
      show none = whole'.replace? p new
      rw [replace?_eq_none_iff] at h
      rw [eq_comm, replace?_eq_none_iff, fragment?_replace?_of_apart hapart.symm h', h]
  | some whole =>
    cases h' : f.replace? q other with
    | none =>
      show whole.replace? q other = none
      rw [replace?_eq_none_iff] at h'
      rw [replace?_eq_none_iff, fragment?_replace?_of_apart hapart h, h']
    | some whole' => exact replace?_replace?_of_apart hapart h h'

end Formula

/-! ## The laws together -/

namespace Statement

/-- The laws of looking and replacing at one path. -/
structure LawfulAt (s : Statement) (path : Path) : Prop where
  /-- A fragment is replaced exactly where one is found. -/
  isSome_iff : ∀ new, (s.replace? path new).isSome = true ↔ (s.fragment? path).isSome = true
  /-- What was put there is found there. -/
  found : ∀ new whole, s.replace? path new = some whole → whole.fragment? path = some new
  /-- What was found there and is put there again changes nothing. -/
  restored : ∀ fragment, s.fragment? path = some fragment → s.replace? path fragment = some s
  /-- What is put there later takes the place of what was put there before. -/
  overridden : ∀ new other whole, s.replace? path new = some whole →
    whole.replace? path other = s.replace? path other ∧ (whole.replace? path other).isSome = true

/-- What is put at the first path does not disturb what is found or put at the second. -/
structure Independent (s : Statement) (p q : Path) : Prop where
  /-- What is found at the second path was found there before, and nothing is found if nothing was. -/
  found : ∀ new whole, s.replace? p new = some whole → whole.fragment? q = s.fragment? q
  /-- Both replacements are made in any sequence. -/
  comm : ∀ new other,
    (s.replace? p new).bind (·.replace? q other) = (s.replace? q other).bind (·.replace? p new)
  /-- Together they have a result if each of them has one. -/
  isSome : ∀ new other, (s.replace? p new).isSome = true → (s.replace? q other).isSome = true →
    ((s.replace? p new).bind (·.replace? q other)).isSome = true

/-- **Looking and replacing obey the laws of a lens at every path, and at paths that are apart they do not disturb
    each other.** -/
theorem replace?_lawful (s : Statement) (p q : Path) :
    s.LawfulAt p ∧ (¬p <+: q → ¬q <+: p → s.Independent p q) := by
  constructor
  · refine ⟨?_, fun new whole => Formula.fragment?_replace?, fun fragment => Formula.replace?_fragment?, ?_⟩
    · intro new
      rw [Formula.isSome_replace?]
    · intro new other whole h
      have hsame := Formula.replace?_replace? h other
      refine ⟨hsame, ?_⟩
      rw [hsame, Formula.isSome_replace?, ← Formula.isSome_replace? p s new, h]
      rfl
  · intro hp hq
    have hapart : p.Apart q := ⟨hp, hq⟩
    refine ⟨fun new whole => Formula.fragment?_replace?_of_apart hapart, Formula.replace?_comm hapart s, ?_⟩
    intro new other hnew hother
    obtain ⟨whole, h⟩ := Option.isSome_iff_exists.mp hnew
    rw [h, Option.bind_some, Formula.isSome_replace?, Formula.fragment?_replace?_of_apart hapart h,
      ← Formula.isSome_replace? q s other, hother]

/-- Two paths with a step in common, into a conjunction. -/
theorem replace?_lawful_parting :
    ∃ s : Statement, s.text = "~A > (B & ~C)" ∧ ¬[1, 0] <+: [1, 1, 0] ∧ ¬[1, 1, 0] <+: [1, 0] ∧
      s.LawfulAt [1, 0] ∧ s.Independent [1, 0] [1, 1, 0] ∧
      ((s.replace? [1, 0] (.atom ⟨"D"⟩)).bind (·.replace? [1, 1, 0] (.atom ⟨"E"⟩))).map Formula.text =
        some "~A > (D & ~E)" := by
  let s : Statement := .binary .conditional (.negation (.atom ⟨"A"⟩))
    (.binary .conjunction (.atom ⟨"B"⟩) (.negation (.atom ⟨"C"⟩)))
  have hp : ¬[1, 0] <+: [1, 1, 0] := by decide
  have hq : ¬[1, 1, 0] <+: [1, 0] := by decide
  obtain ⟨hlawful, hindependent⟩ := replace?_lawful s [1, 0] [1, 1, 0]
  exact ⟨s, by decide +kernel, hp, hq, hlawful, hindependent hp hq, by decide +kernel⟩

end Statement

end Sentential
