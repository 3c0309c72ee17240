import Sentential.Inference.Search
import Sentential.Inference.Standard
import Sentential.Proofs.Matching
import Sentential.Proofs.Meaning

/-!
# `Sentential.Proofs.Validity` — valid forms and rules

A form is **valid** if its premises entail each of its conclusions, a rule is valid if it replaces patterns
by equivalent ones. Validity speaks of the pattern variables only, of which the usual catalogue has four, so
it is settled by trying all their values.

What holds of the patterns holds of every match: a match says what the variables stand for, and under a
valuation a variable has the value of what it stands for. A variable that no premise binds is a placeholder
in the result. It may be filled with anything, because validity speaks of all values of that variable too.

## Contents
* `ArgumentForm.Valid`, `ReplacementRule.Valid`, `ReplacementRule.Balanced` — properties of the patterns
* `ArgumentForm.Valid.entails` — a result of a valid form is entailed however it is filled
* `ReplacementRule.finished_of_mem_uses` — a rule's result is an equivalent of the fragment
* `Catalogue.standardForms_valid`, `Catalogue.standardRules_valid`, `Catalogue.standardRules_balanced`
-/

namespace Sentential

/-! ## Properties of patterns -/

/-- The premises entail each conclusion. -/
def ArgumentForm.Valid (form : ArgumentForm Statement) : Prop :=
  ∀ c ∈ form.conclusions, Statement.Entails form.premises c

/-- What is replaced is equivalent to what replaces it. -/
def ReplacementRule.Valid (rule : ReplacementRule Statement) : Prop :=
  ∀ d ∈ rule.directions, Statement.Equivalent d.1 d.2

/-- What is replaced has the same variables as what replaces it. -/
def ReplacementRule.Balanced (rule : ReplacementRule Statement) : Prop :=
  ∀ d ∈ rule.directions, ∀ x, x ∈ d.2.leaves ↔ x ∈ d.1.leaves

/-! ## Matches of a form -/

namespace ArgumentForm

variable {form : ArgumentForm Statement} {statements : List Statement} {m : FormMatch} {d : Draft}

/-- A match of a form comes from bindings of its premises, and a result from one of its conclusions. -/
theorem match?_eq_some (h : form.match? statements = some m) :
    m.form = form ∧ matchPremises form.premises statements Assignment.empty = some m.bindings ∧
      ∀ d ∈ m.derived, ∃ c ∈ form.conclusions, d = substitute c m.bindings := by
  unfold ArgumentForm.match? at h
  split at h
  · exact absurd h (by simp)
  · rename_i b hb
    obtain rfl := Option.some.inj h
    refine ⟨rfl, hb, ?_⟩
    intro d hd
    obtain ⟨c, hc, hcd⟩ := List.mem_map.mp ((distinctBy_sublist _ _).mem hd)
    exact ⟨c, hc, hcd.symm⟩

/-- **The statements that match a valid form entail its results**, whatever their placeholders are filled
    with. -/
theorem Valid.entails (hvalid : form.Valid) (h : form.match? statements = some m) (hd : d ∈ m.derived)
    (filling : Statement) : Statement.Entails statements (d.fill filling) := by
  obtain ⟨_, hmatch, hderived⟩ := match?_eq_some h
  obtain ⟨c, hc, rfl⟩ := hderived d hd
  obtain ⟨_, hreal, _⟩ := matchPremises_sound hmatch
  intro v hv
  rw [fill_substitute, Formula.eval_bind]
  -- the valuation of the variables: bound ones as their statements, the others as the filling
  apply hvalid c hc
  intro p hp
  obtain ⟨s, hs, hps⟩ := hreal p hp
  have hvalue : p.eval (fun x => ((m.bindings.get? x).getD filling).eval v) = s.eval v := by
    rw [← hps.bind_eq, Formula.eval_bind]
    refine Formula.eval_congr fun x hx => ?_
    obtain ⟨t, ht⟩ := hps.binds x hx
    rw [Bindings.value, ht]
    rfl
  rw [hvalue]
  exact hv s hs

/-- A symbol of a result occurs in the statements that were matched. -/
theorem mem_leaves_of_mem_derived (h : form.match? statements = some m) (hd : d ∈ m.derived) {y : Symbol}
    (hy : some y ∈ d.leaves) : ∃ s ∈ statements, y ∈ s.leaves := by
  obtain ⟨_, hmatch, hderived⟩ := match?_eq_some h
  obtain ⟨c, _, rfl⟩ := hderived d hd
  exact mem_leaves_substitute_of_matchPremises hmatch hy

end ArgumentForm

/-- What a search finds is a match of one of its forms. -/
theorem Catalogue.exists_of_mem_searchForms {c : Catalogue Statement} {medium : Medium}
    {statements : List Statement} {e : Explanation} {m : FormMatch}
    (h : m ∈ (c.searchForms medium statements e).1) : m.form ∈ c.forms ∧ m.form.match? statements = some m := by
  obtain ⟨form, hform, hmatch⟩ := List.mem_filterMap.mp h
  obtain ⟨heq, _⟩ := ArgumentForm.match?_eq_some hmatch
  rw [heq]
  exact ⟨(List.mem_filter.mp hform).1, hmatch⟩

/-! ## Uses of a rule -/

namespace ReplacementRule

variable {rule : ReplacementRule Statement} {fragment : Statement} {r : Replacement}

/-- A use of a rule comes from one of its directions. -/
theorem mem_uses_iff :
    r ∈ rule.uses fragment ↔ (r.source, r.target) ∈ rule.directions ∧
      matchPattern r.source fragment Assignment.empty = some r.bindings ∧
      r.result = substitute r.target r.bindings := by
  unfold uses
  rw [List.mem_filterMap]
  constructor
  · rintro ⟨⟨source, target⟩, hdirection, hr⟩
    simp only at hr
    split at hr
    · exact absurd hr (by simp)
    · rename_i b hb
      obtain rfl := Option.some.inj hr
      exact ⟨hdirection, hb, rfl⟩
  · rintro ⟨hdirection, hb, hresult⟩
    refine ⟨(r.source, r.target), hdirection, ?_⟩
    simp only [hb, ← hresult]

/-- **A use of a valid and balanced rule** turns the fragment into an equivalent statement with the same
    symbols. -/
theorem finished_of_mem_uses (hvalid : rule.Valid) (hbalanced : rule.Balanced)
    (h : r ∈ rule.uses fragment) :
    ∃ new, r.result = Draft.ofStatement new ∧ Statement.Equivalent fragment new ∧
      ∀ s, s ∈ new.leaves ↔ s ∈ fragment.leaves := by
  obtain ⟨hdirection, hmatch, hresult⟩ := mem_uses_iff.mp h
  obtain ⟨_, hreal, _⟩ := matchPattern_sound hmatch
  have hvariables : ∀ x, x ∈ r.target.leaves ↔ x ∈ r.source.leaves := hbalanced _ hdirection
  have hbinds : r.bindings.Binds r.target := fun x hx => hreal.binds x ((hvariables x).mp hx)
  refine ⟨r.target.bind r.bindings.value, ?_, ?_, ?_⟩
  · rw [hresult, substitute_of_binds hbinds]
  · intro v
    rw [← hreal.bind_eq, Formula.eval_bind, Formula.eval_bind]
    exact hvalid _ hdirection _
  · intro s
    rw [← hreal.bind_eq, Formula.mem_leaves_bind, Formula.mem_leaves_bind]
    simp only [hvariables]

end ReplacementRule

/-! ## The usual catalogue -/

namespace Pattern

/-- The variables that the usual patterns are made of. -/
def alphabet : List Symbol := [⟨"P"⟩, ⟨"Q"⟩, ⟨"R"⟩, ⟨"S"⟩]

/-- Values of the variables. -/
def values (p q r s : Bool) (x : Symbol) : Bool :=
  if x = ⟨"P"⟩ then p else if x = ⟨"Q"⟩ then q else if x = ⟨"R"⟩ then r else s

/-- A pattern of these variables has its value from theirs. -/
theorem eval_values {p : Statement} (hp : ∀ x ∈ p.leaves, x ∈ alphabet) (v : Symbol → Bool) :
    p.eval v = p.eval (values (v ⟨"P"⟩) (v ⟨"Q"⟩) (v ⟨"R"⟩) (v ⟨"S"⟩)) := by
  refine Formula.eval_congr fun x hx => ?_
  have hmem := hp x hx
  simp only [alphabet, List.mem_cons, List.not_mem_nil, or_false] at hmem
  rcases hmem with rfl | rfl | rfl | rfl <;> rfl

end Pattern

namespace Catalogue

open Pattern

/-- The usual forms are made of these variables. -/
theorem standardForms_leaves : ∀ form ∈ standardForms, ∀ p ∈ form.premises ++ form.conclusions,
    ∀ x ∈ p.leaves, x ∈ alphabet := by
  decide +kernel

/-- **The usual forms are valid.** -/
theorem standardForms_valid : ∀ form ∈ standardForms, form.Valid := by
  -- all forms at once, under each of the sixteen valuations
  have hrows : ∀ form ∈ standardForms, ∀ c ∈ form.conclusions, ∀ p q r s,
      (∀ premise ∈ form.premises, premise.eval (values p q r s) = true) → c.eval (values p q r s) = true := by
    decide +kernel
  intro form hform c hc v hv
  have hvariables := standardForms_leaves form hform
  rw [eval_values (hvariables c (List.mem_append_right _ hc))]
  apply hrows form hform c hc
  intro p hp
  rw [← eval_values (hvariables p (List.mem_append_left _ hp))]
  exact hv p hp

/-- The usual rules are balanced. -/
theorem standardRules_balanced : ∀ rule ∈ standardRules, rule.Balanced := by
  have hleaves : ∀ rule ∈ standardRules, ∀ d ∈ rule.directions,
      (∀ x ∈ d.1.leaves, x ∈ d.2.leaves) ∧ ∀ x ∈ d.2.leaves, x ∈ d.1.leaves := by
    decide +kernel
  intro rule hrule d hd x
  obtain ⟨hforward, hbackward⟩ := hleaves rule hrule d hd
  exact ⟨hbackward x, hforward x⟩

/-- The usual rules are made of these variables. -/
theorem standardRules_leaves : ∀ rule ∈ standardRules, ∀ d ∈ rule.directions,
    (∀ x ∈ d.1.leaves, x ∈ alphabet) ∧ ∀ x ∈ d.2.leaves, x ∈ alphabet := by
  decide +kernel

/-- **The usual rules are valid.** -/
theorem standardRules_valid : ∀ rule ∈ standardRules, rule.Valid := by
  have hrows : ∀ rule ∈ standardRules, ∀ d ∈ rule.directions, ∀ p q r s,
      d.1.eval (values p q r s) = d.2.eval (values p q r s) := by
    decide +kernel
  intro rule hrule d hd v
  obtain ⟨hsource, htarget⟩ := standardRules_leaves rule hrule d hd
  rw [eval_values hsource, eval_values htarget]
  exact hrows rule hrule d hd _ _ _ _

end Catalogue

end Sentential
