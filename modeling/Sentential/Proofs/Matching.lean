import Sentential.Inference.Matching
import Sentential.Proofs.Drafts

/-!
# `Sentential.Proofs.Matching` — what a match says

A match of a pattern against a statement is a certificate: under its bindings the pattern *is* the statement
(`Bindings.Realises`). Bindings only grow while a match is searched for, and a realised pattern stays
realised, so the bindings found for several premises realise all of them at once.

What is substituted for a pattern afterwards is determined by the values of the bindings. A pattern without
unbound variable gives a finished draft; in any other the unbound variables become placeholders, and filling
them is giving them a value.

## Contents
* `Bindings.Extends`, `Bindings.value`, `Bindings.Realises` — bindings as substitutions
* `Bindings.realises_atom_iff`, `realises_negation_iff`, `realises_binary_iff` — by the shape of the pattern
* `matchPattern_atom_eq_some`, `matchPattern_negation_eq_some`, `matchPattern_binary_eq_some` — one step
* `matchPattern_sound`, `matchPremises_sound` — one pattern, several patterns
* `perm_of_mem_picks` — a pick and what remains are the list
* `substitute_of_binds`, `fill_substitute`, `mem_leaves_substitute` — what is substituted
* `hasPlaceholder_substitute_iff`, `statement?_substitute_iff` — when it is finished, and as what
-/

namespace Sentential

/-! ## Bindings as substitutions -/

namespace Bindings

/-- Every binding is kept. -/
def Extends (b b' : Bindings) : Prop := ∀ x s, b.get? x = some s → b'.get? x = some s

/-- Every variable of the pattern is bound. -/
def Binds (b : Bindings) (p : Statement) : Prop := ∀ x ∈ p.leaves, ∃ s, b.get? x = some s

/-- What a variable stands for; itself if it is unbound. -/
def value (b : Bindings) (x : Symbol) : Statement := (b.get? x).getD (.atom x)

/-- With its variables replaced, all of which are bound, the pattern is the statement. -/
structure Realises (b : Bindings) (p s : Statement) : Prop where
  binds : b.Binds p
  bind_eq : p.bind b.value = s

variable {b b' b'' : Bindings} {p q s : Statement}

theorem Extends.refl (b : Bindings) : b.Extends b := fun _ _ h => h

theorem Extends.trans (h : b.Extends b') (h' : b'.Extends b'') : b.Extends b'' :=
  fun x s hx => h' x s (h x s hx)

theorem Extends.binds (h : b.Extends b') (hp : b.Binds p) : b'.Binds p := by
  intro x hx
  obtain ⟨s, hs⟩ := hp x hx
  exact ⟨s, h x s hs⟩

theorem Extends.value_eq (h : b.Extends b') (hp : b.Binds p) {x : Symbol} (hx : x ∈ p.leaves) :
    b'.value x = b.value x := by
  obtain ⟨s, hs⟩ := hp x hx
  rw [value, value, hs, h x s hs]

/-- A realised pattern stays realised while bindings grow. -/
theorem Realises.mono (hp : b.Realises p s) (h : b.Extends b') : b'.Realises p s := by
  refine ⟨h.binds hp.binds, ?_⟩
  rw [← hp.bind_eq]
  exact Formula.bind_congr fun x hx => h.value_eq hp.binds hx

/-- A variable of a realised pattern stands for part of the statement. -/
theorem Realises.mem_leaves (hp : b.Realises p s) {x y : Symbol} {t : Statement} (hx : x ∈ p.leaves)
    (ht : b.get? x = some t) (hy : y ∈ t.leaves) : y ∈ s.leaves := by
  rw [← hp.bind_eq, Formula.mem_leaves_bind]
  refine ⟨x, hx, ?_⟩
  rw [value, ht]
  exact hy

/-- A new variable bound to a statement. -/
theorem extends_insert {x : Symbol} (hx : b.get? x = none) (s : Statement) : b.Extends (b.insert x s) := by
  intro y t hy
  rw [Assignment.get?_insert]
  split
  · rename_i h
    rw [← h, hx] at hy
    exact absurd hy (by simp)
  · exact hy

theorem realises_atom_iff {x : Symbol} : b.Realises (.atom x) s ↔ b.get? x = some s := by
  constructor
  · intro h
    obtain ⟨t, ht⟩ := h.binds x (by simp [Formula.leaves])
    have hvalue := h.bind_eq
    rw [Formula.bind_atom, value, ht, Option.getD_some] at hvalue
    rw [ht, hvalue]
  · intro h
    refine ⟨fun y hy => ?_, ?_⟩
    · obtain rfl : y = x := by simpa [Formula.leaves] using hy
      exact ⟨s, h⟩
    · rw [Formula.bind_atom, value, h]
      rfl

theorem realises_negation_iff : b.Realises (.negation p) s ↔ ∃ t, s = .negation t ∧ b.Realises p t := by
  constructor
  · intro h
    exact ⟨p.bind b.value, h.bind_eq.symm, h.binds, rfl⟩
  · rintro ⟨t, rfl, h⟩
    exact ⟨h.binds, congrArg Formula.negation h.bind_eq⟩

theorem realises_binary_iff {c : Connective} :
    b.Realises (.binary c p q) s ↔ ∃ t u, s = .binary c t u ∧ b.Realises p t ∧ b.Realises q u := by
  constructor
  · intro h
    have hp : b.Binds p := fun x hx => h.binds x (List.mem_append_left _ hx)
    have hq : b.Binds q := fun x hx => h.binds x (List.mem_append_right _ hx)
    exact ⟨p.bind b.value, q.bind b.value, h.bind_eq.symm, ⟨hp, rfl⟩, ⟨hq, rfl⟩⟩
  · rintro ⟨t, u, rfl, hp, hq⟩
    refine ⟨fun x hx => ?_, ?_⟩
    · rcases List.mem_append.mp hx with hx | hx
      · exact hp.binds x hx
      · exact hq.binds x hx
    · rw [Formula.bind_binary, hp.bind_eq, hq.bind_eq]

end Bindings

/-! ## One pattern -/

/-- A match of a variable meets its value again, or gives it one. -/
theorem matchPattern_atom_eq_some {x : Symbol} {s : Statement} {b b' : Bindings}
    (h : matchPattern (.atom x) s b = some b') :
    (b.get? x = some s ∧ b' = b) ∨ (b.get? x = none ∧ b' = b.insert x s) := by
  unfold matchPattern at h
  split at h
  · rename_i bound hx
    split at h
    · rename_i hbound
      exact .inl ⟨hbound ▸ hx, (Option.some.inj h).symm⟩
    · exact absurd h (by simp)
  · rename_i hx
    exact .inr ⟨hx, (Option.some.inj h).symm⟩

/-- A match of a negation is one of its operand. -/
theorem matchPattern_negation_eq_some {p s : Statement} {b b' : Bindings}
    (h : matchPattern (.negation p) s b = some b') : ∃ t, s = .negation t ∧ matchPattern p t b = some b' := by
  cases s with
  | negation t => exact ⟨t, rfl, h⟩
  | atom _ => exact absurd h (by simp [matchPattern])
  | binary _ _ _ => exact absurd h (by simp [matchPattern])

/-- A match of a binary pattern is one of each operand, from left to right. -/
theorem matchPattern_binary_eq_some {c : Connective} {p q s : Statement} {b b' : Bindings}
    (h : matchPattern (.binary c p q) s b = some b') :
    ∃ t u b₁, s = .binary c t u ∧ matchPattern p t b = some b₁ ∧ matchPattern q u b₁ = some b' := by
  cases s with
  | binary d t u =>
    simp only [matchPattern] at h
    split at h
    · rename_i hcd
      split at h
      · rename_i b₁ hb₁
        exact ⟨t, u, b₁, hcd ▸ rfl, hb₁, h⟩
      · exact absurd h (by simp)
    · exact absurd h (by simp)
  | atom _ => exact absurd h (by simp [matchPattern])
  | negation _ => exact absurd h (by simp [matchPattern])

/-- **A match realises its pattern.** Earlier bindings are kept, and only variables of the pattern are bound
    besides. -/
theorem matchPattern_sound {p s : Statement} {b b' : Bindings} (h : matchPattern p s b = some b') :
    b.Extends b' ∧ b'.Realises p s ∧ ∀ x t, b'.get? x = some t → b.get? x = some t ∨ x ∈ p.leaves := by
  induction p generalizing s b b' with
  | atom x =>
    rcases matchPattern_atom_eq_some h with ⟨hx, rfl⟩ | ⟨hx, rfl⟩
    · exact ⟨.refl _, Bindings.realises_atom_iff.mpr hx, fun y t hy => .inl hy⟩
    · have hbound : (b.insert x s).get? x = some s := by simp [Assignment.get?_insert]
      refine ⟨Bindings.extends_insert hx s, Bindings.realises_atom_iff.mpr hbound, ?_⟩
      intro y t hy
      rw [Assignment.get?_insert] at hy
      split at hy
      · rename_i heq
        exact .inr (by simp [Formula.leaves, heq])
      · exact .inl hy
  | negation p ih =>
    obtain ⟨t, rfl, hp⟩ := matchPattern_negation_eq_some h
    obtain ⟨hext, hreal, hnew⟩ := ih hp
    exact ⟨hext, Bindings.realises_negation_iff.mpr ⟨t, rfl, hreal⟩, hnew⟩
  | binary c p q ihp ihq =>
    obtain ⟨t, u, b₁, rfl, hp, hq⟩ := matchPattern_binary_eq_some h
    -- the bindings of the left operand survive those of the right one
    obtain ⟨hext₁, hreal₁, hnew₁⟩ := ihp hp
    obtain ⟨hext₂, hreal₂, hnew₂⟩ := ihq hq
    refine ⟨hext₁.trans hext₂, Bindings.realises_binary_iff.mpr ⟨t, u, rfl, hreal₁.mono hext₂, hreal₂⟩, ?_⟩
    intro x v hx
    rcases hnew₂ x v hx with hx | hx
    · exact (hnew₁ x v hx).imp id (List.mem_append_left _)
    · exact .inr (List.mem_append_right _ hx)

/-! ## Several patterns -/

/-- A member that is picked and the members that remain are the list. -/
theorem perm_of_mem_picks {α : Type} {a : α} {members others : List α} (h : (a, others) ∈ picks members) :
    members.Perm (a :: others) := by
  induction members generalizing others with
  | nil => simp [picks] at h
  | cons b rest ih =>
    simp only [picks, List.mem_cons, List.mem_map] at h
    rcases h with h | ⟨⟨a', others'⟩, hmem, heq⟩
    · obtain ⟨rfl, rfl⟩ := Prod.mk.inj h
      exact .refl _
    · obtain ⟨rfl, rfl⟩ := Prod.mk.inj heq
      exact ((ih hmem).cons b).trans (.swap _ _ _)

/-- **Bindings found for premises realise each of them as one of the statements.** Earlier bindings are kept,
    and only variables of the premises are bound besides. -/
theorem matchPremises_sound {premises statements : List Statement} {b b' : Bindings}
    (h : matchPremises premises statements b = some b') :
    b.Extends b' ∧ (∀ p ∈ premises, ∃ s ∈ statements, b'.Realises p s) ∧
      ∀ x t, b'.get? x = some t → b.get? x = some t ∨ ∃ p ∈ premises, x ∈ p.leaves := by
  induction statements generalizing premises b with
  | nil =>
    simp only [matchPremises] at h
    split at h
    · rename_i hnone
      obtain rfl := List.isEmpty_iff.mp hnone
      obtain rfl := Option.some.inj h
      exact ⟨.refl b, by simp, fun x t hx => .inl hx⟩
    · simp at h
  | cons s rest ih =>
    simp only [matchPremises] at h
    obtain ⟨⟨premise, others⟩, hpick, hfound⟩ := List.exists_of_findSome?_eq_some h
    have hperm := perm_of_mem_picks hpick
    simp only at hfound
    split at hfound
    · rename_i b₁ hmatch
      obtain ⟨hext₁, hreal₁, hnew₁⟩ := matchPattern_sound hmatch
      obtain ⟨hext₂, hreal₂, hnew₂⟩ := ih hfound
      refine ⟨hext₁.trans hext₂, ?_, ?_⟩
      · -- the premise picked is realised at once, the others by the rest of the search
        intro p hp
        rcases List.mem_cons.mp (hperm.mem_iff.mp hp) with rfl | hp
        · exact ⟨s, by simp, hreal₁.mono hext₂⟩
        · obtain ⟨s', hs', hreal⟩ := hreal₂ p hp
          exact ⟨s', by simp [hs'], hreal⟩
      · intro x t hx
        rcases hnew₂ x t hx with hx | ⟨p, hp, hx⟩
        · exact (hnew₁ x t hx).imp id fun hx => ⟨premise, hperm.mem_iff.mpr (by simp), hx⟩
        · exact .inr ⟨p, hperm.mem_iff.mpr (by simp [hp]), hx⟩
    · simp at hfound

/-! ## What is substituted -/

variable {p : Statement} {b : Bindings}

/-- Without unbound variable, what is substituted is finished. -/
theorem substitute_of_binds (h : b.Binds p) : substitute p b = Draft.ofStatement (p.bind b.value) := by
  induction p with
  | atom x =>
    obtain ⟨s, hs⟩ := h x (by simp [Formula.leaves])
    simp [substitute, Bindings.value, hs]
  | negation p ih => exact congrArg Formula.negation (ih h)
  | binary c p q ihp ihq =>
    have hp := ihp fun x hx => h x (List.mem_append_left _ hx)
    have hq := ihq fun x hx => h x (List.mem_append_right _ hx)
    show Formula.binary c (substitute p b) (substitute q b) = _
    rw [hp, hq]
    rfl

/-- Filling what was substituted gives every unbound variable a value. -/
theorem fill_substitute (p : Statement) (b : Bindings) (filling : Statement) :
    (substitute p b).fill filling = p.bind fun x => (b.get? x).getD filling := by
  rw [substitute, Draft.fill, Formula.bind_bind]
  congr 1
  funext x
  cases b.get? x with
  | none => rfl
  | some s => exact Draft.fill_ofStatement s filling

/-- A symbol of what was substituted is one of a binding of the pattern's variables. -/
theorem mem_leaves_substitute {y : Symbol} (h : some y ∈ (substitute p b).leaves) :
    ∃ x ∈ p.leaves, ∃ t, b.get? x = some t ∧ y ∈ t.leaves := by
  rw [substitute, Formula.mem_leaves_bind] at h
  obtain ⟨x, hx, hy⟩ := h
  cases hs : b.get? x with
  | none => simp [hs, Draft.placeholder, Formula.leaves] at hy
  | some t =>
    rw [hs] at hy
    refine ⟨x, hx, t, hs, ?_⟩
    simpa [Draft.ofStatement, Formula.leaves_map] using hy

/-- After a match of one pattern, it is one of the statement's. -/
theorem mem_leaves_substitute_of_matchPattern {source s : Statement}
    (h : matchPattern source s Assignment.empty = some b) {y : Symbol}
    (hy : some y ∈ (substitute p b).leaves) : y ∈ s.leaves := by
  obtain ⟨_, hreal, hnew⟩ := matchPattern_sound h
  obtain ⟨x, _, t, ht, hyt⟩ := mem_leaves_substitute hy
  -- nothing was bound before the match, so the pattern bound the variable
  rcases hnew x t ht with hempty | hx
  · exact absurd hempty (by simp)
  · exact hreal.mem_leaves hx ht hyt

/-- After a match of premises, it is one of the statements'. -/
theorem mem_leaves_substitute_of_matchPremises {premises statements : List Statement}
    (h : matchPremises premises statements Assignment.empty = some b) {y : Symbol}
    (hy : some y ∈ (substitute p b).leaves) : ∃ s ∈ statements, y ∈ s.leaves := by
  obtain ⟨_, hreal, hnew⟩ := matchPremises_sound h
  obtain ⟨x, _, t, ht, hyt⟩ := mem_leaves_substitute hy
  -- nothing was bound before the search, so a premise bound the variable
  rcases hnew x t ht with hempty | ⟨q, hq, hxq⟩
  · exact absurd hempty (by simp)
  · obtain ⟨s, hs, hqs⟩ := hreal q hq
    exact ⟨s, hs, hqs.mem_leaves hxq ht hyt⟩

/-- A placeholder stands for an unbound variable of the pattern. -/
theorem hasPlaceholder_substitute_iff :
    (substitute p b).hasPlaceholder = true ↔ ∃ x ∈ p.leaves, b.get? x = none := by
  rw [Draft.hasPlaceholder_iff, substitute, Formula.mem_leaves_bind]
  refine exists_congr fun x => and_congr_right fun _ => ?_
  cases b.get? x with
  | none => simp [Draft.placeholder, Formula.leaves]
  | some t => simp [Draft.ofStatement, Formula.leaves_map]

/-- What is substituted is finished as a statement exactly when the pattern is realised as it. -/
theorem statement?_substitute_iff {s : Statement} : (substitute p b).statement? = some s ↔ b.Realises p s := by
  constructor
  · intro h
    have hbinds : b.Binds p := by
      intro x hx
      cases hb : b.get? x with
      | some t => exact ⟨t, rfl⟩
      | none =>
        -- an unbound variable would have left a placeholder
        rw [Draft.statement?_eq_none_iff.mpr (hasPlaceholder_substitute_iff.mpr ⟨x, hx, hb⟩)] at h
        exact absurd h (by simp)
    rw [substitute_of_binds hbinds, Draft.statement?_ofStatement] at h
    exact ⟨hbinds, Option.some.inj h⟩
  · intro h
    rw [substitute_of_binds h.binds, Draft.statement?_ofStatement, h.bind_eq]

end Sentential
