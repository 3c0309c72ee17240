import Sentential.Proofs.Extensions
import Sentential.Proofs.Texts

/-!
# `Sentential.Proofs.Reversal` — a replacement can be undone

A rule lists pairs of patterns and allows both directions of each, so a replacement ought to be undone by the
other direction. For that the pattern that replaced the fragment has to match what it became, with bindings that
turn the other pattern into the very fragment there was. Matching finds the least bindings, which are among those
of the first match; and as both patterns have the same variables, they are enough to go back
(`ReplacementRule.exists_use_back`).

The way back must also be seen. Results with one text are listed once, but that hides no result
(`mem_derived_of_mem_uses`). And the path still leads to what was put there, so that the statement is put together
again around the old fragment.

## Contents
* `ReplacementRule.exists_use_back` — the other direction matches the result
* `ReplacementRule.exists_match?_back` — the match that undoes a result
* `RuleMatch.Reversible`, `searchRules_reversible` — every text that a search gives can be undone
-/

namespace Sentential

namespace ReplacementRule

variable {rule : ReplacementRule Statement} {statement fragment new : Statement} {path : Path}
  {r : Replacement}

/-! ## The way back -/

/-- With a direction, a rule allows the opposite one. -/
theorem mem_directions_swap {source target : Statement} (h : (source, target) ∈ rule.directions) :
    (target, source) ∈ rule.directions := by
  obtain ⟨⟨left, right⟩, hpair, h⟩ := List.mem_flatMap.mp h
  refine List.mem_flatMap.mpr ⟨(left, right), hpair, ?_⟩
  simp only [List.mem_cons, Prod.mk.injEq, List.not_mem_nil, or_false] at h ⊢
  exact h.symm.imp And.symm And.symm

/-- **What a balanced rule makes of a fragment, it makes the fragment of again.** -/
theorem exists_use_back (hbalanced : rule.Balanced) (h : r ∈ rule.uses fragment)
    (hnew : r.result = Draft.ofStatement new) :
    ∃ back ∈ rule.uses new, back.result = Draft.ofStatement fragment := by
  obtain ⟨hdirection, hmatch, hresult⟩ := mem_uses_iff.mp h
  obtain ⟨_, hsource, _⟩ := matchPattern_sound hmatch
  have hvariables : ∀ x, x ∈ r.target.leaves ↔ x ∈ r.source.leaves := hbalanced _ hdirection
  -- the bindings of the match realise the target as the new fragment
  have htarget : r.bindings.Realises r.target new := by
    rw [← statement?_substitute_iff, ← hresult, hnew, Draft.statement?_ofStatement]
  have hempty : Bindings.Extends Assignment.empty r.bindings := by
    intro x s hx
    exact absurd hx (by simp)
  obtain ⟨b, hback, hext⟩ := exists_matchPattern hempty htarget
  -- the match back binds the same variables, to the same statements
  obtain ⟨_, hb, _⟩ := matchPattern_sound hback
  have hbinds : b.Binds r.source := fun x hx => hb.binds x ((hvariables x).mpr hx)
  have hfragment : b.Realises r.source fragment := hsource.restrict hext hbinds
  refine ⟨⟨r.target, r.source, b, substitute r.source b⟩, ?_, ?_⟩
  · exact mem_uses_iff.mpr ⟨mem_directions_swap hdirection, hback, rfl⟩
  · exact Draft.statement?_eq_some_iff.mp (statement?_substitute_iff.mpr hfragment)

/-- A rule with a use matches. -/
theorem exists_match? (h : r ∈ rule.uses fragment) (statement : Statement) (path : Path) :
    ∃ m, rule.match? statement path fragment = some m := by
  unfold match?
  split
  · rename_i hnone
    rw [hnone] at h
    exact absurd h List.not_mem_nil
  · exact ⟨_, rfl⟩

/-! ## The match that undoes a result -/

/-- **In place of a result of a balanced rule, the rule matches again**, and the statement that the result was
    put into is among the texts. -/
theorem exists_match?_back (hbalanced : rule.Balanced) (hs : Statement.Writable statement)
    (hpath : statement.fragment? path = some fragment) (h : r ∈ rule.uses fragment) {whole : Statement}
    (hwhole : RewritesTo statement path r.result whole) :
    ∃ new back, whole.fragment? path = some new ∧ rule.match? whole path new = some back ∧
      statement.text ∈ back.spliced := by
  obtain ⟨new, hnew, hreplace⟩ := hwhole.replaced
  have hfound : whole.fragment? path = some new := Formula.fragment?_replace? hreplace
  obtain ⟨undo, hundo, hresult⟩ := exists_use_back hbalanced h hnew
  -- the new fragment can be written, being part of a statement that can
  have hwritable : Statement.Writable new := Statement.writable_of_fragment? (hwhole.writable hs) hfound
  obtain ⟨back, hback⟩ := exists_match? hundo whole path
  have hmem : Draft.ofStatement fragment ∈ back.derived :=
    hresult ▸ mem_derived_of_mem_uses hwritable hback hundo
  have hsplice : splice whole path (Draft.ofStatement fragment) = statement.text := by
    have hagain : whole.replace? path fragment = some statement := by
      rw [Formula.replace?_replace? hreplace, Formula.replace?_fragment? hpath]
    simp only [splice, Draft.statement?_ofStatement, hagain]
  refine ⟨new, back, hfound, hback, ?_⟩
  rw [(match?_eq_some hback).2.1, ← hsplice]
  exact List.mem_map_of_mem hmem

end ReplacementRule

/-! ## Every text that a search gives can be undone -/

/-- Each text of the match is read as a statement in which a search at the same path finds the rule again, with
    the statement searched first among its texts. -/
def RuleMatch.Reversible (m : RuleMatch) (s : Statement) (path : Path) : Prop :=
  ∀ text ∈ m.spliced, ∃ whole, Statement.parse text = .ok whole ∧
    ∀ (medium : Medium) (e : Explanation), ∃ found e',
      Catalogue.standard.searchRules medium whole path e = .ok (found, e') ∧
        ∃ back ∈ found, back.rule = m.rule ∧ s.text ∈ back.spliced

/-- **Every replacement can be undone by the same rule.** -/
theorem searchRules_reversible (medium : Medium) (e : Explanation) {s fragment : Statement} {path : Path}
    (hs : Statement.Writable s) (hpath : s.fragment? path = some fragment) :
    ∃ found e', Catalogue.standard.searchRules medium s path e = .ok (found, e') ∧
      ∀ m ∈ found, m.Reversible s path := by
  obtain ⟨e', hfound⟩ := Catalogue.standard.searchRules_of_fragment? medium e hpath
  refine ⟨_, e', hfound, ?_⟩
  intro m hm text htext
  obtain ⟨rule, hrule, hmatch⟩ := List.mem_filterMap.mp hm
  have hvalid := Catalogue.standardRules_valid rule hrule
  have hbalanced := Catalogue.standardRules_balanced rule hrule
  -- the text is that of a use of the rule in place
  obtain ⟨rfl, hspliced, hderived⟩ := ReplacementRule.match?_eq_some hmatch
  rw [hspliced] at htext
  obtain ⟨d, hd, rfl⟩ := List.mem_map.mp htext
  obtain ⟨r, hr, rfl⟩ := hderived d hd
  obtain ⟨whole, hwhole⟩ := ReplacementRule.rewritesTo_of_mem_derived hvalid hbalanced hpath hmatch hd
  refine ⟨whole, hwhole.parse hs, fun medium e => ?_⟩
  obtain ⟨new, back, hnew, hback, hmem⟩ :=
    ReplacementRule.exists_match?_back hbalanced hs hpath hr hwhole
  obtain ⟨e'', hagain⟩ := Catalogue.standard.searchRules_of_fragment? medium e hnew
  refine ⟨_, e'', hagain, back, List.mem_filterMap.mpr ⟨m.rule, hrule, hback⟩, ?_, hmem⟩
  exact (ReplacementRule.match?_eq_some hback).1

open Pattern in
/-- A fragment that is its own commutation, and that a rule with two directions shortens. -/
theorem searchRules_reversible_conjunction :
    ∃ found e', Catalogue.standard.searchRules .plain (neg (conj P P)) [0] {} = .ok (found, e') ∧
      found.map (fun m => (m.rule.abbreviation, m.spliced)) =
        [("Com", ["~(P & P)"]), ("DN", ["~~~(P & P)"]),
          ("Taut", ["~((P & P) & (P & P))", "~P", "~((P & P) v (P & P))"])] ∧
      ∀ m ∈ found, m.Reversible (neg (conj P P)) [0] := by
  have hwritable : Statement.Writable (neg (conj P P)) := by decide
  have hpath : (neg (conj P P)).fragment? [0] = some (conj P P) := rfl
  obtain ⟨found, e', hfound, hreversible⟩ := searchRules_reversible .plain {} hwritable hpath
  have htexts : (Catalogue.standard.searchRules .plain (neg (conj P P)) [0] {}).toOption.map
      (·.1.map fun m => (m.rule.abbreviation, m.spliced)) =
        some [("Com", ["~(P & P)"]), ("DN", ["~~~(P & P)"]),
          ("Taut", ["~((P & P) & (P & P))", "~P", "~((P & P) v (P & P))"])] := by
    decide +kernel
  rw [hfound] at htexts
  exact ⟨found, e', hfound, Option.some.inj htexts, hreversible⟩

end Sentential
