import Sentential.Interpretation

/-!
# `Sentential.Proofs.Meaning` — entailment and equivalence

An interpretation gives values to some symbols only, and a statement that has others has no value under it. A
**valuation** gives values to all symbols, so that entailment can be chained through statements whose symbols
come and go. The bridge is `evaluate_of_assigns`: where an interpretation assigns every symbol of a
statement, its value is the one under the valuation that the interpretation extends to.

## Contents
* `Interpretation.Assigns`, `Interpretation.valuation` — from interpretations to valuations
* `Statement.Equivalent`, `Statement.Entails` — over all valuations
* `Entails.evaluate`, `Equivalent.evaluate` — what they say of interpretations
-/

namespace Sentential

namespace Interpretation

/-- Every symbol of the statement has a value. -/
def Assigns (i : Interpretation) (f : Statement) : Prop := ∀ s ∈ f.symbols, (i.get? s).isSome = true

instance (i : Interpretation) (f : Statement) : Decidable (i.Assigns f) :=
  inferInstanceAs (Decidable (∀ s ∈ f.symbols, (i.get? s).isSome = true))

/-- The values of the interpretation; false for the symbols without one. -/
def valuation (i : Interpretation) (s : Symbol) : Bool := (i.get? s).getD false

variable {i : Interpretation} {f : Statement}

theorem assigns_iff : i.Assigns f ↔ ∀ s ∈ f.leaves, (i.get? s).isSome = true := by
  simp [Assigns, Formula.symbols]

/-- Where every symbol has a value, the statement has its value under the valuation. -/
theorem evaluate_of_assigns (h : i.Assigns f) : i.evaluate f = some (f.eval i.valuation) := by
  rw [assigns_iff] at h
  induction f with
  | atom s =>
    obtain ⟨b, hb⟩ := Option.isSome_iff_exists.mp (h s (by simp [Formula.leaves]))
    simp [evaluate, Formula.eval, valuation, hb]
  | negation f ih => simp [evaluate, Formula.eval, ih h]
  | binary c f g ihf ihg =>
    have hf := ihf fun s hs => h s (by simp [Formula.leaves, hs])
    have hg := ihg fun s hs => h s (by simp [Formula.leaves, hs])
    simp [evaluate, Formula.eval, hf, hg]

/-- Where the symbols have the values of a valuation, so has the statement. -/
theorem evaluate_of_get? {v : Symbol → Bool} (h : ∀ s ∈ f.leaves, i.get? s = some (v s)) :
    i.evaluate f = some (f.eval v) := by
  have hassigns : i.Assigns f := assigns_iff.mpr fun s hs => by rw [h s hs]; rfl
  rw [evaluate_of_assigns hassigns]
  refine congrArg some (Formula.eval_congr fun s hs => ?_)
  rw [valuation, h s hs, Option.getD_some]

/-- A statement with a value has all its symbols assigned. -/
theorem assigns_of_evaluate {b : Bool} (h : i.evaluate f = some b) : i.Assigns f := by
  rw [assigns_iff]
  induction f generalizing b with
  | atom s =>
    intro t ht
    obtain rfl : t = s := by simpa [Formula.leaves] using ht
    exact Option.isSome_iff_exists.mpr ⟨b, h⟩
  | negation f ih =>
    simp only [evaluate, Option.map_eq_some_iff] at h
    obtain ⟨b', hb, _⟩ := h
    exact ih hb
  | binary c f g ihf ihg =>
    simp only [evaluate] at h
    -- there is a value only if both operands have one
    split at h
    · rename_i p q hf hg
      intro t ht
      rcases List.mem_append.mp ht with ht | ht
      · exact ihf hf t ht
      · exact ihg hg t ht
    · simp at h

/-- A value under an interpretation is the value under its valuation. -/
theorem eval_of_evaluate {b : Bool} (h : i.evaluate f = some b) : f.eval i.valuation = b := by
  have hvalue := evaluate_of_assigns (assigns_of_evaluate h)
  rw [h] at hvalue
  exact (Option.some.inj hvalue).symm

end Interpretation

namespace Statement

/-- The statements have the same value under every valuation. -/
def Equivalent (f g : Statement) : Prop := ∀ v, f.eval v = g.eval v

/-- The statement is true under every valuation that makes the premises true. -/
def Entails (premises : List Statement) (f : Statement) : Prop :=
  ∀ v, (∀ p ∈ premises, p.eval v = true) → f.eval v = true

variable {premises : List Statement} {f g : Statement} {i : Interpretation}

/-- A premise is entailed. -/
theorem Entails.of_mem (h : f ∈ premises) : Entails premises f := fun _ hv => hv f h

/-- What entailed statements entail is entailed. -/
theorem Entails.trans {between : List Statement} (h : Entails between f)
    (hbetween : ∀ g ∈ between, Entails premises g) : Entails premises f :=
  fun v hv => h v fun g hg => hbetween g hg v hv

theorem Entails.congr (h : Entails premises f) (heq : Equivalent f g) : Entails premises g :=
  fun v hv => heq v ▸ h v hv

/-- An entailed statement is true under every interpretation that makes the premises true and assigns its
    symbols. -/
theorem Entails.evaluate (h : Entails premises f) (hi : i.Assigns f)
    (hpremises : ∀ p ∈ premises, i.evaluate p = some true) : i.evaluate f = some true := by
  rw [Interpretation.evaluate_of_assigns hi]
  exact congrArg some (h i.valuation fun p hp => Interpretation.eval_of_evaluate (hpremises p hp))

/-- No interpretation refutes an entailed statement. -/
theorem Entails.not_refuted (h : Entails premises f)
    (hpremises : ∀ p ∈ premises, i.evaluate p = some true) : i.evaluate f ≠ some false := by
  intro hf
  rw [h.evaluate (Interpretation.assigns_of_evaluate hf) hpremises] at hf
  exact absurd hf (by simp)

/-- Equivalent statements with the same symbols have the same value under every interpretation that assigns
    them. -/
theorem Equivalent.evaluate (h : Equivalent f g) (hsymbols : ∀ s, s ∈ g.symbols ↔ s ∈ f.symbols)
    (hi : i.Assigns f) : ∃ b, i.evaluate f = some b ∧ i.evaluate g = some b := by
  have hg : i.Assigns g := fun s hs => hi s ((hsymbols s).mp hs)
  refine ⟨f.eval i.valuation, Interpretation.evaluate_of_assigns hi, ?_⟩
  rw [h i.valuation]
  exact Interpretation.evaluate_of_assigns hg

end Statement

end Sentential
