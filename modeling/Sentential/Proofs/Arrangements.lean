import Mathlib.Data.List.Forall2
import Sentential.Proofs.Extensions

/-!
# `Sentential.Proofs.Arrangements` — premises assigned to statements

An arrangement puts the premises in a sequence, each once, so that each meets the statement at its place. The
search goes through the statements and commits itself twice at each of them: to a premise, and to the bindings
that the premise needs. Neither can lose an arrangement. The bindings are the least that the premise needs
(`exists_matchPattern`), so any extension that realises the whole arrangement still extends them; and a premise
is given up only if no arrangement goes on from it (`exists_matchPremises`).

Premises keep their labels while others are taken out, and stay sorted by them. So an arrangement that begins
with a premise other than the one picked either begins with one that was given up, or comes later
(`first_of_matchPremises`).

## Contents
* `map_fst_picks`, `picks_map`, `sublist_of_mem_picks` — what can be picked, and what remains
* `exists_matchPremises` — completeness
* `LexLE`, `first_of_matchPremises` — the arrangement found is the first
* `Arranges`, `exists_arranges` — arrangements by index
* `matchPremises_isSome_iff`, `mem_keys_matchPremises` — when bindings are found, and of what
* `IsFirstMatch`, `matchPremises_first` — all of it together
-/

namespace Sentential

/-! ## Picking one member -/

section Picks

variable {α β : Type}

/-- Every member is picked once, in sequence. -/
theorem map_fst_picks (members : List α) : (picks members).map Prod.fst = members := by
  induction members with
  | nil => rfl
  | cons a rest ih =>
    rw [picks, List.map_cons, List.map_map]
    exact congrArg (a :: ·) ih

theorem exists_mem_picks {a : α} {members : List α} (h : a ∈ members) :
    ∃ others, (a, others) ∈ picks members := by
  rw [← map_fst_picks members] at h
  obtain ⟨⟨a, others⟩, hpick, rfl⟩ := List.mem_map.mp h
  exact ⟨others, hpick⟩

/-- Picking does not look at the members. -/
theorem picks_map (f : α → β) (members : List α) :
    picks (members.map f) = (picks members).map fun pick => (f pick.1, pick.2.map f) := by
  induction members with
  | nil => rfl
  | cons a rest ih =>
    rw [List.map_cons, picks, ih, picks, List.map_cons, List.map_map, List.map_map]
    rfl

/-- What remains keeps its sequence. -/
theorem sublist_of_mem_picks {a : α} {members others : List α} (h : (a, others) ∈ picks members) :
    others.Sublist members := by
  induction members generalizing others with
  | nil => exact absurd h List.not_mem_nil
  | cons b rest ih =>
    rcases List.mem_cons.mp h with heq | h
    · obtain ⟨rfl, rfl⟩ := Prod.mk.inj heq
      exact List.sublist_cons_self a others
    · obtain ⟨⟨a', others'⟩, hpick, heq⟩ := List.mem_map.mp h
      obtain ⟨rfl, rfl⟩ := Prod.mk.inj heq
      exact (ih hpick).cons_cons b

end Picks

/-! ## No arrangement is lost -/

variable {premises statements : List Statement} {b b' : Bindings}

/-- **If some extension of the bindings realises the premises in some sequence, the search finds bindings.** -/
theorem exists_matchPremises {arrangement : List Statement} {c : Bindings} (hext : b.Extends c)
    (hperm : arrangement.Perm premises) (hreal : List.Forall₂ c.Realises arrangement statements) :
    ∃ b', matchPremises premises statements b = some b' := by
  induction hreal generalizing premises b with
  | nil =>
    obtain rfl := List.nil_perm.mp hperm
    exact ⟨b, rfl⟩
  | @cons p s arrangement rest hp _ ih =>
    obtain ⟨others, hpick⟩ := exists_mem_picks (hperm.mem_iff.mp List.mem_cons_self)
    have hothers : arrangement.Perm others := (hperm.trans (perm_of_mem_picks hpick)).cons_inv
    obtain ⟨b₁, hmatch, hext₁⟩ := exists_matchPattern hext hp
    obtain ⟨b', hb'⟩ := ih hext₁ hothers
    -- this pick leads to bindings, so the search ends here or before
    refine Option.isSome_iff_exists.mp ?_
    rw [matchPremises, List.findSome?_isSome_iff]
    exact ⟨(p, others), hpick, by simp only [hmatch, hb', Option.isSome_some]⟩

/-! ## The first arrangement -/

/-- The lists of numbers are the same, or the first one comes first in lexicographic order. -/
def LexLE (places others : List Nat) : Prop := places = others ∨ List.Lex (· < ·) places others

theorem LexLE.cons {places others : List Nat} (h : LexLE places others) (k : Nat) :
    LexLE (k :: places) (k :: others) :=
  h.imp (congrArg (k :: ·)) List.Lex.cons

/-- One step of the search: the first pick from which bindings are found, all picks before it having been
    given up. -/
theorem matchPremises_cons_eq_some {labelled : List (Statement × Nat)} {s : Statement}
    {rest : List Statement} (h : matchPremises (labelled.map Prod.fst) (s :: rest) b = some b') :
    ∃ before p others after b₁, picks labelled = before ++ (p, others) :: after ∧
      matchPattern p.1 s b = some b₁ ∧ matchPremises (others.map Prod.fst) rest b₁ = some b' ∧
      ∀ q remaining, (q, remaining) ∈ before → ∀ b₂, matchPattern q.1 s b = some b₂ →
        matchPremises (remaining.map Prod.fst) rest b₂ = none := by
  rw [matchPremises, picks_map, List.findSome?_map, List.findSome?_eq_some_iff] at h
  obtain ⟨before, ⟨p, others⟩, after, hpicks, hfound, hbefore⟩ := h
  simp only [Function.comp_apply] at hfound
  split at hfound
  · rename_i b₁ hmatch
    refine ⟨before, p, others, after, b₁, hpicks, hmatch, hfound, ?_⟩
    intro q remaining hq b₂ hb₂
    have hnone := hbefore (q, remaining) hq
    simpa only [Function.comp_apply, hb₂] using hnone
  · exact absurd hfound (by simp)

/-- **The search realises the first arrangement that can be realised**, by the labels of premises that are
    sorted by them. -/
theorem first_of_matchPremises {labelled : List (Statement × Nat)}
    (hsorted : labelled.Pairwise fun p q => p.2 < q.2)
    (h : matchPremises (labelled.map Prod.fst) statements b = some b') :
    ∃ arrangement, arrangement.Perm labelled ∧
      List.Forall₂ (fun p s => b'.Realises p.1 s) arrangement statements ∧
      ∀ (c : Bindings) other, b.Extends c → other.Perm labelled →
        List.Forall₂ (fun p s => c.Realises p.1 s) other statements →
        LexLE (arrangement.map Prod.snd) (other.map Prod.snd) := by
  induction statements generalizing labelled b with
  | nil =>
    simp only [matchPremises] at h
    split at h
    · rename_i hnone
      obtain rfl := List.map_eq_nil_iff.mp (List.isEmpty_iff.mp hnone)
      refine ⟨[], .nil, .nil, ?_⟩
      intro c other _ hother _
      exact .inl (congrArg _ (List.perm_nil.mp hother).symm)
    · exact absurd h (by simp)
  | cons s rest ih =>
    obtain ⟨before, p, others, after, b₁, hpicks, hmatch, hrest, hgiven⟩ := matchPremises_cons_eq_some h
    have hpick : (p, others) ∈ picks labelled := by simp [hpicks]
    have hperm := perm_of_mem_picks hpick
    obtain ⟨arrangement, harrangement, hreal, hfirst⟩ :=
      ih (hsorted.sublist (sublist_of_mem_picks hpick)) hrest
    obtain ⟨_, hp, _⟩ := matchPattern_sound hmatch
    obtain ⟨hkept, _, _⟩ := matchPremises_sound hrest
    refine ⟨p :: arrangement, (harrangement.cons p).trans hperm.symm, .cons (hp.mono hkept) hreal, ?_⟩
    rintro c (_ | ⟨q, other⟩) hext hother hrealised
    · cases hrealised
    · cases hrealised with
      | cons hq hrealised =>
        obtain ⟨b₂, hmatch₂, hext₂⟩ := exists_matchPattern hext hq
        -- where the first premise of the other arrangement is among the picks
        have hlabelled : labelled = before.map Prod.fst ++ p :: after.map Prod.fst := by
          rw [← map_fst_picks labelled, hpicks, List.map_append, List.map_cons]
        have hmem : q ∈ before.map Prod.fst ++ p :: after.map Prod.fst :=
          hlabelled ▸ hother.mem_iff.mp List.mem_cons_self
        rcases List.mem_append.mp hmem with hbefore | hmem
        · -- it was given up, although the other arrangement goes on from it
          obtain ⟨⟨q, remaining⟩, hq', rfl⟩ := List.mem_map.mp hbefore
          have hremaining := perm_of_mem_picks (hpicks ▸ List.mem_append_left _ hq')
          have hrest' : List.Forall₂ c.Realises (other.map Prod.fst) rest :=
            List.forall₂_map_left_iff.mpr hrealised
          obtain ⟨b₃, hb₃⟩ :=
            exists_matchPremises hext₂ (((hother.trans hremaining).cons_inv).map Prod.fst) hrest'
          rw [hgiven q remaining hq' b₂ hmatch₂] at hb₃
          exact absurd hb₃ (by simp)
        · rcases List.mem_cons.mp hmem with rfl | hafter
          · -- it is the one picked, and the rest decides
            obtain rfl : b₂ = b₁ := Option.some.inj (hmatch₂.symm.trans hmatch)
            exact (hfirst c other hext₂ ((hother.trans hperm).cons_inv) hrealised).cons _
          · -- it has a later label
            rw [hlabelled] at hsorted
            have hlater := (List.pairwise_append.mp hsorted).2.1
            exact .inr (.rel ((List.pairwise_cons.mp hlater).1 q hafter))

/-- Labels by place are sorted. -/
theorem pairwise_zipIdx (premises : List Statement) : premises.zipIdx.Pairwise fun p q => p.2 < q.2 := by
  have hplaces := List.pairwise_lt_range' (s := 0) (n := premises.length)
  rw [← List.zipIdx_map_snd 0 premises] at hplaces
  exact List.pairwise_map.mp hplaces

/-! ## Arrangements by index -/

/-- The arrangement has every premise once, with its index, and each premise with its variables replaced is the
    statement at the same place. -/
structure Arranges (premises statements : List Statement) (b : Bindings)
    (arrangement : List (Statement × Nat)) : Prop where
  perm : arrangement.Perm premises.zipIdx
  replaced : List.Forall₂ (fun p s => (substitute p.1 b).statement? = some s) arrangement statements

variable {arrangement : List (Statement × Nat)}

theorem arranges_iff : Arranges premises statements b arrangement ↔ arrangement.Perm premises.zipIdx ∧
    List.Forall₂ (fun p s => b.Realises p.1 s) arrangement statements := by
  simp only [← statement?_substitute_iff]
  exact ⟨fun h => ⟨h.perm, h.replaced⟩, fun h => ⟨h.1, h.2⟩⟩

/-- Premises that are arranged are as many as the statements. -/
theorem Arranges.length_eq (h : Arranges premises statements b arrangement) :
    premises.length = statements.length := by
  rw [← h.replaced.length_eq, h.perm.length_eq, List.length_zipIdx]

/-- Without the indices, an arrangement is the premises in some sequence. -/
theorem Arranges.unlabelled (h : Arranges premises statements b arrangement) :
    (arrangement.map Prod.fst).Perm premises ∧
      List.Forall₂ b.Realises (arrangement.map Prod.fst) statements := by
  obtain ⟨hperm, hreal⟩ := arranges_iff.mp h
  have hpremises := hperm.map Prod.fst
  rw [List.zipIdx_map_fst] at hpremises
  exact ⟨hpremises, List.forall₂_map_left_iff.mpr hreal⟩

/-- The bindings found realise the first arrangement by index. -/
theorem exists_arranges (h : matchPremises premises statements b = some b') :
    ∃ arrangement, Arranges premises statements b' arrangement ∧
      ∀ (c : Bindings) other, b.Extends c → Arranges premises statements c other →
        LexLE (arrangement.map Prod.snd) (other.map Prod.snd) := by
  rw [← List.zipIdx_map_fst 0 premises] at h
  obtain ⟨arrangement, hperm, hreal, hfirst⟩ := first_of_matchPremises (pairwise_zipIdx premises) h
  refine ⟨arrangement, arranges_iff.mpr ⟨hperm, hreal⟩, ?_⟩
  intro c other hext hother
  obtain ⟨hperm', hreal'⟩ := arranges_iff.mp hother
  exact hfirst c other hext hperm' hreal'

/-! ## What the search finds -/

/-- **The search finds bindings exactly if some extension of those given realises the premises in some
    sequence.** -/
theorem matchPremises_isSome_iff :
    (matchPremises premises statements b).isSome = true ↔
      ∃ (c : Bindings) (arrangement : List Statement), b.Extends c ∧ arrangement.Perm premises ∧
        List.Forall₂ c.Realises arrangement statements := by
  constructor
  · intro h
    obtain ⟨b', hb'⟩ := Option.isSome_iff_exists.mp h
    obtain ⟨hext, _, _⟩ := matchPremises_sound hb'
    obtain ⟨arrangement, harranges, _⟩ := exists_arranges hb'
    exact ⟨b', arrangement.map Prod.fst, hext, harranges.unlabelled⟩
  · rintro ⟨c, arrangement, hext, hperm, hreal⟩
    exact Option.isSome_iff_exists.mpr (exists_matchPremises hext hperm hreal)

/-- The variables of the premises are bound besides, and nothing else. -/
theorem mem_keys_matchPremises (h : matchPremises premises statements b = some b') (x : Symbol) :
    x ∈ b'.keys ↔ x ∈ b.keys ∨ ∃ p ∈ premises, x ∈ p.leaves := by
  obtain ⟨hext, hreal, hnew⟩ := matchPremises_sound h
  constructor
  · intro hx
    obtain ⟨t, ht⟩ := Assignment.mem_keys_iff.mp hx
    exact (hnew x t ht).imp (fun hb => Assignment.mem_keys_iff.mpr ⟨t, hb⟩) id
  · rintro (hx | ⟨p, hp, hx⟩)
    · obtain ⟨t, ht⟩ := Assignment.mem_keys_iff.mp hx
      exact Assignment.mem_keys_iff.mpr ⟨t, hext x t ht⟩
    · obtain ⟨s, _, hps⟩ := hreal p hp
      exact Bindings.mem_keys_of_realises hps hx

/-- The second bindings extend the first by what the premises need in their first arrangement. -/
structure IsFirstMatch (premises statements : List Statement) (b b' : Bindings) : Prop where
  kept : b.Extends b'
  mem_keys : ∀ x, x ∈ b'.keys ↔ x ∈ b.keys ∨ ∃ p ∈ premises, x ∈ p.leaves
  /-- They realise an arrangement, and none that an extension of the first bindings realises comes before
      it. -/
  first : ∃ arrangement, Arranges premises statements b' arrangement ∧
    ∀ (c : Bindings) other, b.Extends c → Arranges premises statements c other →
      LexLE (arrangement.map Prod.snd) (other.map Prod.snd)

/-- **Premises are matched by the first arrangement that some extension of the bindings realises**, where
    statements are taken in sequence and premises are compared by index; and they are not matched only if there
    is no arrangement. -/
theorem matchPremises_first (premises statements : List Statement) (b : Bindings) :
    ((matchPremises premises statements b).isSome = true ↔
        premises.length = statements.length ∧
          ∃ (c : Bindings) (arrangement : List (Statement × Nat)), b.Extends c ∧
            Arranges premises statements c arrangement) ∧
      ∀ b', matchPremises premises statements b = some b' → IsFirstMatch premises statements b b' := by
  refine ⟨⟨?_, ?_⟩, ?_⟩
  · intro h
    obtain ⟨b', hb'⟩ := Option.isSome_iff_exists.mp h
    obtain ⟨hext, _, _⟩ := matchPremises_sound hb'
    obtain ⟨arrangement, harranges, _⟩ := exists_arranges hb'
    exact ⟨harranges.length_eq, b', arrangement, hext, harranges⟩
  · rintro ⟨_, c, arrangement, hext, harranges⟩
    exact matchPremises_isSome_iff.mpr ⟨c, arrangement.map Prod.fst, hext, harranges.unlabelled⟩
  · intro b' h
    obtain ⟨hext, _, _⟩ := matchPremises_sound h
    exact ⟨hext, mem_keys_matchPremises h, exists_arranges h⟩

/-- The first statement is tried with the first premise, which then has to be given up. -/
theorem matchPremises_first_given_up :
    ∃ (premises statements : List Statement) (b b' : Bindings), premises.map Formula.text = ["P", "P > Q"] ∧
      statements.map Formula.text = ["A > B", "A"] ∧ b.text = "\x7bR←C\x7d" ∧
      matchPremises premises statements b = some b' ∧ b'.text = "\x7bR←C, P←A, Q←B\x7d" ∧
      IsFirstMatch premises statements b b' := by
  let premises : List Statement := [.atom ⟨"P"⟩, .binary .conditional (.atom ⟨"P"⟩) (.atom ⟨"Q"⟩)]
  let statements : List Statement := [.binary .conditional (.atom ⟨"A"⟩) (.atom ⟨"B"⟩), .atom ⟨"A"⟩]
  let b : Bindings := ⟨[(⟨"R"⟩, .atom ⟨"C"⟩)], by simp⟩
  obtain ⟨b', hmatch, htext⟩ : ∃ b', matchPremises premises statements b = some b' ∧
      b'.text = "\x7bR←C, P←A, Q←B\x7d" :=
    ⟨_, rfl, by decide +kernel⟩
  exact ⟨premises, statements, b, b', by decide +kernel, by decide +kernel, by decide +kernel, hmatch, htext,
    (matchPremises_first premises statements b).2 b' hmatch⟩

end Sentential
