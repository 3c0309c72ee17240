import Sentential.Proofs.Matching

/-!
# `Sentential.Proofs.Extensions` — a match is the least extension

Matching begins with bindings and only adds to them. What it adds is forced: an extension of the bindings that
makes the pattern the statement gives each variable of the pattern one value, which is the fragment that the
variable meets. So no such extension is ever missed, and each of them contains the one that is found
(`exists_matchPattern`). The only freedom left is the sequence in which variables are bound, and that is the
sequence in which they first occur in the pattern (`keys_matchPattern`).

## Contents
* `Bindings.Realises.restrict` — fewer bindings realise a pattern whose variables they bind
* `exists_matchPattern` — completeness: what can be extended is extended, and by nothing that is not needed
* `pairs_matchPattern`, `keys_matchPattern` — the entries of a match, in sequence
* `IsLeastMatch`, `matchPattern_least` — all of it together
-/

namespace Sentential

/-! ## Fewer bindings -/

namespace Bindings

variable {b b' : Bindings} {p s : Statement}

/-- Fewer bindings realise the pattern too if they bind its variables. -/
theorem Realises.restrict (h : b'.Realises p s) (hext : b.Extends b') (hbinds : b.Binds p) :
    b.Realises p s := by
  refine ⟨hbinds, ?_⟩
  rw [← h.bind_eq]
  exact Formula.bind_congr fun x hx => (hext.value_eq hbinds hx).symm

/-- A variable bound to a value that larger bindings give it. -/
theorem Extends.insert {x : Symbol} (hext : b.Extends b') (hx : b'.get? x = some s) :
    Bindings.Extends (b.insert x s) b' := by
  intro y t hy
  rw [Assignment.get?_insert] at hy
  split at hy
  · rename_i heq
    rw [← heq, hx]
    exact hy
  · exact hext y t hy

theorem mem_keys_of_realises {x : Symbol} (h : b.Realises p s) (hx : x ∈ p.leaves) : x ∈ b.keys :=
  Assignment.mem_keys_iff.mpr (h.binds x hx)

end Bindings

/-! ## Nothing is missed, nothing needless is added -/

/-- **A match is found inside every extension that realises the pattern.** -/
theorem exists_matchPattern {p s : Statement} {b c : Bindings} (hext : b.Extends c) (hreal : c.Realises p s) :
    ∃ b', matchPattern p s b = some b' ∧ b'.Extends c := by
  induction p generalizing s b with
  | atom x =>
    have hx := Bindings.realises_atom_iff.mp hreal
    unfold matchPattern
    cases hb : b.get? x with
    | some bound =>
      -- the extension keeps the binding, so the statement is the one bound
      have hbound : bound = s := Option.some.inj ((hext x bound hb).symm.trans hx)
      exact ⟨b, by simp [hbound], hext⟩
    | none => exact ⟨b.insert x s, rfl, hext.insert hx⟩
  | negation p ih =>
    obtain ⟨t, rfl, hp⟩ := Bindings.realises_negation_iff.mp hreal
    exact ih hext hp
  | binary d p q ihp ihq =>
    obtain ⟨t, u, rfl, hp, hq⟩ := Bindings.realises_binary_iff.mp hreal
    -- the bindings of the left operand are still within the extension
    obtain ⟨b₁, hmatch₁, hext₁⟩ := ihp hext hp
    obtain ⟨b₂, hmatch₂, hext₂⟩ := ihq hext₁ hq
    exact ⟨b₂, by simp [matchPattern, hmatch₁, hmatch₂], hext₂⟩

/-! ## The entries of a match -/

/-- The entries there were stay in front. -/
theorem pairs_matchPattern {p s : Statement} {b b' : Bindings} (h : matchPattern p s b = some b') :
    b.pairs <+: b'.pairs := by
  induction p generalizing s b b' with
  | atom x =>
    rcases matchPattern_atom_eq_some h with ⟨_, rfl⟩ | ⟨hx, rfl⟩
    · exact ⟨[], List.append_nil _⟩
    · exact ⟨[(x, s)], (Assignment.pairs_insert hx s).symm⟩
  | negation p ih =>
    obtain ⟨t, rfl, hp⟩ := matchPattern_negation_eq_some h
    exact ih hp
  | binary c p q ihp ihq =>
    obtain ⟨t, u, b₁, rfl, hp, hq⟩ := matchPattern_binary_eq_some h
    exact (ihp hp).trans (ihq hq)

/-- **The variables that were unbound are added as they first occur.** -/
theorem keys_matchPattern {p s : Statement} {b b' : Bindings} (h : matchPattern p s b = some b') :
    b'.keys = b.keys ++ p.symbols.filter (· ∉ b.keys) := by
  induction p generalizing s b b' with
  | atom x =>
    have hsymbols : Formula.symbols (.atom x) = [x] := rfl
    rcases matchPattern_atom_eq_some h with ⟨hx, rfl⟩ | ⟨hx, rfl⟩
    · have hold : x ∈ b'.keys := Assignment.mem_keys_iff.mpr ⟨s, hx⟩
      simp [hsymbols, hold]
    · have hnew : x ∉ b.keys := Assignment.get?_eq_none_iff.mp hx
      have hkeys : (b.insert x s).keys = b.keys ++ [x] := by
        rw [Assignment.keys, Assignment.pairs_insert hx, List.map_append]
        rfl
      simp [hkeys, hsymbols, hnew]
  | negation p ih =>
    obtain ⟨t, rfl, hp⟩ := matchPattern_negation_eq_some h
    exact ih hp
  | binary c p q ihp ihq =>
    obtain ⟨t, u, b₁, rfl, hp, hq⟩ := matchPattern_binary_eq_some h
    have hsymbols : Formula.symbols (.binary c p q) = p.symbols ++ q.symbols.filter (· ∉ p.leaves) :=
      distinct_append p.leaves q.leaves
    rw [ihq hq, ihp hp, hsymbols, List.filter_append, List.filter_filter, List.append_assoc]
    congr 2
    -- after the left operand, what is unbound occurs neither there nor before
    refine List.filter_congr fun x _ => ?_
    simp only [List.mem_append, List.mem_filter, Formula.symbols, mem_distinct, decide_eq_true_eq]
    by_cases hb : x ∈ b.keys <;> by_cases hx : x ∈ p.leaves <;> simp [hb, hx]

/-! ## All of it together -/

/-- The second bindings are the least that contain the first and turn the pattern into the statement. -/
structure IsLeastMatch (p s : Statement) (b b' : Bindings) : Prop where
  /-- The entries of the first bindings are unchanged, and in front. -/
  kept : b.pairs <+: b'.pairs
  /-- Behind them are the variables of the pattern that had no value, by first occurrence. -/
  keys : b'.keys = b.keys ++ p.symbols.filter (· ∉ b.keys)
  /-- With its variables replaced the pattern is the statement. -/
  replaced : (substitute p b').statement? = some s
  /-- Whatever contains the first bindings and does the same contains the second. -/
  least : ∀ c : Bindings, b.Extends c → (substitute p c).statement? = some s → b'.Extends c

/-- **Matching finds the least extension of the bindings that turns the pattern into the statement**, and it
    fails only if there is no such extension. -/
theorem matchPattern_least (p s : Statement) (b : Bindings) :
    ((matchPattern p s b).isSome = true ↔
        ∃ c : Bindings, b.Extends c ∧ (substitute p c).statement? = some s) ∧
      ∀ b', matchPattern p s b = some b' → IsLeastMatch p s b b' := by
  refine ⟨⟨?_, ?_⟩, ?_⟩
  · intro h
    obtain ⟨b', hb'⟩ := Option.isSome_iff_exists.mp h
    obtain ⟨hext, hreal, _⟩ := matchPattern_sound hb'
    exact ⟨b', hext, statement?_substitute_iff.mpr hreal⟩
  · rintro ⟨c, hext, hc⟩
    obtain ⟨b', hb', _⟩ := exists_matchPattern hext (statement?_substitute_iff.mp hc)
    exact Option.isSome_iff_exists.mpr ⟨b', hb'⟩
  · intro b' h
    obtain ⟨_, hreal, _⟩ := matchPattern_sound h
    refine ⟨pairs_matchPattern h, keys_matchPattern h, statement?_substitute_iff.mpr hreal, ?_⟩
    intro c hext hc
    obtain ⟨b'', hb'', hleast⟩ := exists_matchPattern hext (statement?_substitute_iff.mp hc)
    rw [h] at hb''
    exact Option.some.inj hb'' ▸ hleast

/-- One variable has a value before, the other occurs twice. -/
theorem matchPattern_least_repeated :
    ∃ (p s : Statement) (b b' : Bindings), p.text = "P & (Q v P)" ∧ s.text = "(A > B) & (B v (A > B))" ∧
      b.text = "\x7bQ←B\x7d" ∧ matchPattern p s b = some b' ∧ b'.text = "\x7bQ←B, P←A > B\x7d" ∧
      IsLeastMatch p s b b' := by
  let p : Statement :=
    .binary .conjunction (.atom ⟨"P"⟩) (.binary .disjunction (.atom ⟨"Q"⟩) (.atom ⟨"P"⟩))
  let s : Statement :=
    .binary .conjunction (.binary .conditional (.atom ⟨"A"⟩) (.atom ⟨"B"⟩))
      (.binary .disjunction (.atom ⟨"B"⟩) (.binary .conditional (.atom ⟨"A"⟩) (.atom ⟨"B"⟩)))
  let b : Bindings := ⟨[(⟨"Q"⟩, .atom ⟨"B"⟩)], by simp⟩
  obtain ⟨b', hmatch, htext⟩ : ∃ b', matchPattern p s b = some b' ∧ b'.text = "\x7bQ←B, P←A > B\x7d" :=
    ⟨_, rfl, by decide +kernel⟩
  exact ⟨p, s, b, b', by decide +kernel, by decide +kernel, by decide +kernel, hmatch, htext,
    (matchPattern_least p s b).2 b' hmatch⟩

end Sentential
