import Sentential.Draft

/-!
# `Sentential.Proofs.Drafts` — drafts and the statements that they stand for

A draft is finished exactly when it is a statement in disguise, `Draft.ofStatement s`; otherwise it has a
placeholder. Filling leaves a finished draft as it is, and under a valuation a placeholder has the value of
what it is filled with.

## Contents
* `leaves_map`, `mem_leaves_bind` — leaves of a formula whose leaves were replaced
* `text_ofStatement` — a finished draft is printed as its statement
* `statement?_eq_some_iff`, `statement?_eq_none_iff`, `hasPlaceholder_iff`, `hasPlaceholder_eq_false_iff` — when a
  draft is finished
* `fill_ofStatement`, `eval_fill`, `mem_leaves_fill` — filling
-/

namespace Sentential

namespace Formula

variable {α β : Type}

theorem leaves_map (h : α → β) (f : Formula α) : (f.map h).leaves = f.leaves.map h := by
  induction f with
  | atom a => rfl
  | negation f ih => exact ih
  | binary c f g ihf ihg => simp [map, leaves, ihf, ihg]

/-- The leaves of a formula whose leaves were replaced come from the replacements. -/
theorem mem_leaves_bind {f : Formula α} {σ : α → Formula β} {b : β} :
    b ∈ (f.bind σ).leaves ↔ ∃ a ∈ f.leaves, b ∈ (σ a).leaves := by
  induction f with
  | atom a => simp [leaves]
  | negation f ih => exact ih
  | binary c f g ihf ihg =>
    simp only [bind_binary, leaves, List.mem_append, ihf, ihg]
    constructor
    · rintro (⟨a, ha, hb⟩ | ⟨a, ha, hb⟩)
      · exact ⟨a, .inl ha, hb⟩
      · exact ⟨a, .inr ha, hb⟩
    · rintro ⟨a, ha | ha, hb⟩
      · exact .inl ⟨a, ha, hb⟩
      · exact .inr ⟨a, ha, hb⟩

theorem isBinary_map (h : α → β) (f : Formula α) : (f.map h).isBinary = f.isBinary := by
  cases f <;> rfl

end Formula

namespace Draft

/-- A finished draft is printed as its statement. -/
theorem text_ofStatement (s : Statement) : (ofStatement s).text = s.text := by
  have hbracketed : ∀ (f : Statement) (text : String),
      (ofStatement f).bracketed text = f.bracketed text := by
    intro f text
    rw [Formula.bracketed, Formula.bracketed, ofStatement, Formula.isBinary_map]
  induction s with
  | atom a => rfl
  | negation f ih =>
    show negationToken ++ (ofStatement f).bracketed (ofStatement f).text = _
    rw [hbracketed, ih]
    rfl
  | binary c f g ihf ihg =>
    show (ofStatement f).bracketed (ofStatement f).text ++ " " ++ c.token ++ " "
        ++ (ofStatement g).bracketed (ofStatement g).text = _
    rw [hbracketed, hbracketed, ihf, ihg]
    rfl

/-! ## Finished drafts -/

theorem statement?_ofStatement (s : Statement) : (ofStatement s).statement? = some s := by
  induction s with
  | atom a => rfl
  | negation f ih =>
    have ih : (f.map some).traverse? id = some f := ih
    simp [ofStatement, statement?, Formula.map, Formula.traverse?, ih]
  | binary c f g ihf ihg =>
    have ihf : (f.map some).traverse? id = some f := ihf
    have ihg : (g.map some).traverse? id = some g := ihg
    simp [ofStatement, statement?, Formula.map, Formula.traverse?, ihf, ihg]

/-- **A draft is finished as a statement exactly when it is that statement.** -/
theorem statement?_eq_some_iff {d : Draft} {s : Statement} : d.statement? = some s ↔ d = ofStatement s := by
  constructor
  · intro h
    induction d generalizing s with
    | atom a =>
      simp only [statement?, Formula.traverse?, id, Option.map_eq_some_iff] at h
      obtain ⟨x, rfl, rfl⟩ := h
      rfl
    | negation f ih =>
      simp only [statement?, Formula.traverse?, Option.map_eq_some_iff] at h
      obtain ⟨f', hf, rfl⟩ := h
      rw [ih hf]
      rfl
    | binary c f g ihf ihg =>
      simp only [statement?, Formula.traverse?] at h
      split at h
      · rename_i f' g' hf hg
        obtain rfl := Option.some.inj h
        rw [ihf hf, ihg hg]
        rfl
      · simp at h
  · rintro rfl
    exact statement?_ofStatement s

theorem hasPlaceholder_iff {d : Draft} : d.hasPlaceholder = true ↔ none ∈ d.leaves := by
  rw [hasPlaceholder, List.any_eq_true]
  constructor
  · rintro ⟨a, ha, hnone⟩
    rwa [← Option.isNone_iff_eq_none.mp hnone]
  · intro h
    exact ⟨none, h, rfl⟩

/-- A draft is unfinished exactly when it has a placeholder. -/
theorem statement?_eq_none_iff {d : Draft} : d.statement? = none ↔ d.hasPlaceholder = true := by
  induction d with
  | atom a => cases a <;> simp [statement?, hasPlaceholder, Formula.traverse?, Formula.leaves]
  | negation f ih => simpa [statement?, hasPlaceholder, Formula.traverse?, Formula.leaves] using ih
  | binary c f g ihf ihg =>
    simp only [statement?, hasPlaceholder] at ihf ihg
    simp only [statement?, hasPlaceholder, Formula.traverse?, Formula.leaves, List.any_append,
      Bool.or_eq_true, ← ihf, ← ihg]
    cases f.traverse? id <;> cases g.traverse? id <;> simp

/-- **Without placeholder, a draft is a statement in disguise.** -/
theorem hasPlaceholder_eq_false_iff {d : Draft} : d.hasPlaceholder = false ↔ ∃ s, d = ofStatement s := by
  rw [← Bool.not_eq_true, ← statement?_eq_none_iff, ← Ne, Option.ne_none_iff_exists']
  exact exists_congr fun s => statement?_eq_some_iff

theorem hasPlaceholder_ofStatement (s : Statement) : (ofStatement s).hasPlaceholder = false :=
  hasPlaceholder_eq_false_iff.mpr ⟨s, rfl⟩

/-! ## Filling -/

/-- A leaf filled with a symbol is a symbol. -/
@[simp] theorem fill_atom (a : Option Symbol) (s : Symbol) : fill (.atom a) (.atom s) = .atom (a.getD s) := by
  cases a <;> rfl

@[simp] theorem fill_negation (f : Draft) (filling : Statement) :
    fill (.negation f) filling = .negation (f.fill filling) := rfl

@[simp] theorem fill_binary (c : Connective) (f g : Draft) (filling : Statement) :
    fill (.binary c f g) filling = .binary c (f.fill filling) (g.fill filling) := rfl

@[simp] theorem fill_ofStatement (s filling : Statement) : (ofStatement s).fill filling = s := by
  induction s with
  | atom a => rfl
  | negation f ih => exact congrArg Formula.negation ih
  | binary c f g ihf ihg =>
    show Formula.binary c ((ofStatement f).fill filling) ((ofStatement g).fill filling) = _
    rw [ihf, ihg]

/-- A placeholder has the value of what it is filled with. -/
theorem eval_fill (d : Draft) (filling : Statement) (v : Symbol → Bool) :
    (d.fill filling).eval v = d.eval fun x => x.elim (filling.eval v) v := by
  rw [fill, Formula.eval_bind]
  congr 1
  funext x
  cases x <;> rfl

/-- The symbols of a filled draft are those of the draft, and those of the filling if there is a
    placeholder. -/
theorem mem_leaves_fill {d : Draft} {filling : Statement} {s : Symbol} :
    s ∈ (d.fill filling).leaves ↔ some s ∈ d.leaves ∨ (none ∈ d.leaves ∧ s ∈ filling.leaves) := by
  rw [fill, Formula.mem_leaves_bind]
  constructor
  · -- the leaf comes from a placeholder or from a symbol
    rintro ⟨x, hx, hs⟩
    cases x with
    | none => exact .inr ⟨hx, hs⟩
    | some t =>
      obtain rfl : s = t := by simpa [Formula.leaves] using hs
      exact .inl hx
  · rintro (hs | ⟨hx, hs⟩)
    · exact ⟨some s, hs, by simp [Formula.leaves]⟩
    · exact ⟨none, hx, hs⟩

end Draft

end Sentential
