import Sentential.Proofs.Drafts
import Sentential.Proofs.Results
import Sentential.Proofs.Spacing

/-!
# `Sentential.Proofs.Printing` — printed formulas are read back

The text of a formula is the text of a sentence of its own: the one with the printed tokens for glyphs and
round brackets around every operand that is binary (`Statement.sentence`). It is well formed whatever the
operators are, since an operand in brackets binds tightest; so the reader gives it back from its text, and
forgetting the writing gives the formula.

A placeholder is no part of any sentence. The text of an unfinished draft holds its token, and so is refused.

## Contents
* `Statement.Writable`, `Draft.Writable` — formulas whose symbols can be written
* `Statement.sentence` — the sentence that a formula is printed as
* `Statement.parse_text_of_writable` — a printed statement is read back
* `placeholder_not_mem_of_parse`, `Draft.placeholder_mem_text_iff` — no text that is read holds a placeholder
* `Draft.parse_text` — both together, for drafts
-/

namespace Sentential

open Text

/-! ## Formulas that can be written -/

/-- Every symbol of the statement can be written. -/
def Statement.Writable (f : Statement) : Prop := ∀ s ∈ f.leaves, s.Writable

instance (f : Statement) : Decidable f.Writable :=
  inferInstanceAs (Decidable (∀ s ∈ f.leaves, s.Writable))

/-- Every symbol of the draft can be written. -/
def Draft.Writable (d : Draft) : Prop := ∀ s, some s ∈ d.leaves → s.Writable

theorem Draft.writable_ofStatement {f : Statement} :
    (Draft.ofStatement f).Writable ↔ Statement.Writable f := by
  simp [Draft.Writable, Statement.Writable, Draft.ofStatement, Formula.leaves_map]

/-- A sentence of the grammar's shape states a writable statement. -/
theorem Sentence.WellFormed.writable {t : Sentence} (ht : t.WellFormed) : Statement.Writable t.statement := by
  induction t with
  | symbol s =>
    intro x hx
    obtain rfl : x = s := by simpa [Sentence.statement, Formula.leaves] using hx
    exact ht
  | negation g t ih => exact ih ht.2.2
  | binary c g l r ihl ihr =>
    obtain ⟨_, _, _, hl, hr⟩ := ht
    intro x hx
    rcases List.mem_append.mp hx with hx | hx
    · exact ihl hl x hx
    · exact ihr hr x hx
  | group o t c ih => exact ih ht.2.2

namespace Statement

/-- A statement that was read can be written. -/
theorem writable_of_parse {source : String} {f : Statement} (h : parse source = .ok f) : Writable f := by
  obtain ⟨t, ht, rfl⟩ := map_eq_ok_iff.mp h
  exact (Sentence.written_of_parse ht).1.writable

/-! ## The sentence that is printed -/

/-- Round brackets around an operand that is binary. -/
def wrapped (operand : Statement) (t : Sentence) : Sentence :=
  if operand.isBinary then .group '(' t ')' else t

/-- The sentence that a statement is printed as. -/
def sentence : Statement → Sentence
  | .atom s => .symbol s
  | .negation f => .negation negationToken (wrapped f (sentence f))
  | .binary c f g => .binary c c.token (wrapped f (sentence f)) (wrapped g (sentence g))

/-- The sentence that is printed states the statement. -/
theorem statement_sentence (f : Statement) : (sentence f).statement = f := by
  have hwrapped : ∀ (f : Statement) (t : Sentence), (wrapped f t).statement = t.statement := by
    intro f t
    unfold wrapped
    split <;> rfl
  induction f with
  | atom s => rfl
  | negation f ih => simp [sentence, Sentence.statement, hwrapped, ih]
  | binary c f g ihf ihg => simp [sentence, Sentence.statement, hwrapped, ihf, ihg]

/-- In brackets or not, an operand binds tightest. -/
theorem level_wrapped (f : Statement) : (wrapped f (sentence f)).level = 0 := by
  cases f <;> rfl

/-- The sentence that is printed has the grammar's shape. -/
theorem wellFormed_sentence {f : Statement} (hf : Writable f) : (sentence f).WellFormed := by
  have hwrapped : ∀ {f : Statement}, (sentence f).WellFormed → (wrapped f (sentence f)).WellFormed := by
    intro f h
    unfold wrapped
    split
    · exact ⟨by decide, by decide, h⟩
    · exact h
  induction f with
  | atom s => exact hf s (by simp [Formula.leaves])
  | negation f ih => exact ⟨by decide, level_wrapped f, hwrapped (ih hf)⟩
  | binary c f g ihf ihg =>
    have hl := hwrapped (ihf fun s hs => hf s (by simp [Formula.leaves, hs]))
    have hr := hwrapped (ihg fun s hs => hf s (by simp [Formula.leaves, hs]))
    refine ⟨c.token_mem_glyphs, ?_, ?_, hl, hr⟩
    · rw [level_wrapped]; exact Nat.succ_pos _
    · rw [level_wrapped]; exact Nat.zero_le _

/-! ## The text is the text of the sentence -/

/-- The sentence that is printed has the statement's text. -/
theorem text_sentence (f : Statement) : (sentence f).text = f.text := by
  have hwrapped : ∀ {f : Statement}, (sentence f).text = f.text →
      (wrapped f (sentence f)).text = f.bracketed f.text := by
    intro f h
    unfold wrapped Formula.bracketed
    split
    · rw [← h]
      rfl
    · exact h
  induction f with
  | atom s => rfl
  | negation f ih => simp [sentence, Sentence.text, Formula.text, hwrapped ih]
  | binary c f g ihf ihg => simp [sentence, Sentence.text, Formula.text, hwrapped ihf, hwrapped ihg]

/-- **A printed statement is read back.** -/
theorem parse_text_of_writable {f : Statement} (hf : Writable f) : parse f.text = .ok f := by
  have hparse := Sentence.parse_text_of_wellFormed (wellFormed_sentence hf)
  rw [text_sentence] at hparse
  exact map_eq_ok_iff.mpr ⟨sentence f, hparse, statement_sentence f⟩

/-- Statements with one text are one statement. -/
theorem eq_of_text_eq {f g : Statement} (hf : Writable f) (hg : Writable g) (h : f.text = g.text) : f = g := by
  have hread := parse_text_of_writable hf
  rw [h, parse_text_of_writable hg] at hread
  exact (Except.ok.inj hread).symm

end Statement

/-! ## Placeholders are never read -/

/-- A name that can be written holds no placeholder. -/
theorem Symbol.Writable.placeholder_not_mem {s : Symbol} (hs : s.Writable) : '%' ∉ s.name.toList := by
  intro hmem
  exact absurd (hs.2 _ hmem) (by decide)

/-- The character of a placeholder occurs in no token of a sentence of the grammar's shape. -/
theorem placeholder_not_mem_tokens {t : Sentence} (ht : t.WellFormed) : ∀ part ∈ t.tokens, '%' ∉ part := by
  have hword : ∀ part, IsWord part → '%' ∉ part := fun part hpart hmem =>
    absurd (hpart.2 _ hmem) (by decide)
  refine ht.forall_mem_tokens hword ?_ ?_ ?_ ?_
  · decide
  · intro c
    cases c <;> decide
  · simp [openingBrackets]
  · simp [closingBrackets]

/-- A character of a writing is a blank or one of a token's. -/
theorem Written.mem {parts : List Token} {cs : List Char} (h : Written parts cs) {c : Char} (hc : c ∈ cs) :
    isBlank c = true ∨ ∃ part ∈ parts, c ∈ part := by
  induction h with
  | tail hblank => exact .inl (hblank c hc)
  | part hgap _ _ ih =>
    simp only [List.mem_append] at hc
    rcases hc with (hc | hc) | hc
    · exact .inl (hgap c hc)
    · exact .inr ⟨_, by simp, hc⟩
    · exact (ih hc).imp id fun ⟨p, hp, hcp⟩ => ⟨p, by simp [hp], hcp⟩

/-- No text that is read holds a placeholder. -/
theorem placeholder_not_mem_of_parse {source : String} {f : Statement} (h : Statement.parse source = .ok f) :
    '%' ∉ source.toList := by
  obtain ⟨t, hparse, _⟩ := map_eq_ok_iff.mp h
  obtain ⟨ht, hwritten⟩ := Sentence.written_of_parse hparse
  intro hmem
  rcases hwritten.mem hmem with hblank | ⟨part, hpart, hin⟩
  · exact absurd hblank (by decide)
  · exact placeholder_not_mem_tokens ht part hpart hin

namespace Draft

/-- The text of an unfinished draft holds a placeholder. -/
theorem placeholder_mem_text {d : Draft} (h : d.hasPlaceholder = true) : '%' ∈ d.text.toList := by
  have hbracketed : ∀ {d : Draft} {text : String}, '%' ∈ text.toList → '%' ∈ (d.bracketed text).toList := by
    intro d text hmem
    unfold Formula.bracketed
    split
    · simp [hmem]
    · exact hmem
  induction d with
  | atom a =>
    cases a with
    | none => decide
    | some s => exact absurd h (by simp [hasPlaceholder, Formula.leaves])
  | negation f ih => simp [Formula.text, hbracketed (d := f) (ih h)]
  | binary c f g ihf ihg =>
    simp only [hasPlaceholder, Formula.leaves, List.any_append, Bool.or_eq_true] at h
    rcases h with h | h
    · simp [Formula.text, hbracketed (d := f) (ihf h)]
    · simp [Formula.text, hbracketed (d := g) (ihg h)]

/-- Whether a draft is finished shows in its text. -/
theorem placeholder_mem_text_iff {d : Draft} (hd : d.Writable) :
    '%' ∈ d.text.toList ↔ d.hasPlaceholder = true := by
  refine ⟨fun h => ?_, placeholder_mem_text⟩
  rw [← statement?_eq_none_iff]
  cases hs : d.statement? with
  | none => rfl
  | some s =>
    -- the text of a finished draft is read
    obtain rfl := statement?_eq_some_iff.mp hs
    rw [text_ofStatement] at h
    have hread := Statement.parse_text_of_writable (writable_ofStatement.mp hd)
    exact absurd h (placeholder_not_mem_of_parse hread)

/-- **Printing and reading are inverse on drafts.** The text of a draft is read as a statement exactly when
    the draft is finished as that statement. So every statement is recovered from its text, and a text that
    still holds a placeholder is refused. -/
theorem parse_text {d : Draft} (hd : d.Writable) :
    (∀ s, Statement.parse d.text = .ok s ↔ d.statement? = some s) ∧
      (∀ s, d = ofStatement s → Statement.parse s.text = .ok s) ∧
      (d.hasPlaceholder = true → ∃ fault, Statement.parse d.text = .error fault) := by
  have hfinished : ∀ s, d = ofStatement s → Statement.parse d.text = .ok s := by
    rintro s rfl
    rw [text_ofStatement]
    exact Statement.parse_text_of_writable (writable_ofStatement.mp hd)
  have hrefused : d.hasPlaceholder = true → ∃ fault, Statement.parse d.text = .error fault := by
    intro h
    cases hparse : Statement.parse d.text with
    | error fault => exact ⟨fault, rfl⟩
    | ok s => exact absurd (placeholder_mem_text h) (placeholder_not_mem_of_parse hparse)
  refine ⟨fun s => ⟨fun h => ?_, fun h => hfinished s (statement?_eq_some_iff.mp h)⟩, ?_, hrefused⟩
  · -- an unfinished draft is refused, so what was read is the statement that the draft is finished as
    cases hs : d.statement? with
    | none =>
      obtain ⟨fault, hfault⟩ := hrefused (statement?_eq_none_iff.mp hs)
      rw [hfault] at h
      exact absurd h (by simp)
    | some s' =>
      rw [hfinished s' (statement?_eq_some_iff.mp hs)] at h
      rw [Except.ok.inj h]
  · rintro s rfl
    have h := hfinished s rfl
    rwa [text_ofStatement] at h

/-- A symbol may be named as disjunction is printed. -/
theorem parse_text_letter_v :
    Statement.parse "(v v ~v) > v" =
        .ok (.binary .conditional (.binary .disjunction (.atom ⟨"v"⟩) (.negation (.atom ⟨"v"⟩))) (.atom ⟨"v"⟩)) ∧
      ∃ fault, Statement.parse "v v %" = .error fault := by
  have hfinished : Draft.Writable (ofStatement
      (.binary .conditional (.binary .disjunction (.atom ⟨"v"⟩) (.negation (.atom ⟨"v"⟩))) (.atom ⟨"v"⟩))) :=
    writable_ofStatement.mpr (by decide)
  have hunfinished : Draft.Writable (.binary .disjunction (.atom (some ⟨"v"⟩)) placeholder) := by
    intro s hs
    obtain rfl : s = ⟨"v"⟩ := by simpa [placeholder, Formula.leaves] using hs
    decide
  exact ⟨(parse_text hfinished).2.1 _ rfl, (parse_text hunfinished).2.2 rfl⟩

end Draft

end Sentential
