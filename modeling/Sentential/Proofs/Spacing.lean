import Sentential.Proofs.Reading

/-!
# `Sentential.Proofs.Spacing` — the text of a sentence with normal spacing is read back

The text of a sentence keeps every glyph and every bracket and puts its own blanks: one on each side of a
binary glyph and none elsewhere. It adds no brackets. That the tree comes back all the same has two reasons:
the tree has the grammar's shape, so no brackets are missing, and the blanks that are left are enough to keep
the tokens apart (`written_text`), since a word can only run into a letter and a binary glyph is the one token
that may be a word beside another word.

So among all the texts that are read as one tree, the text with normal spacing is the one that the tree
itself gives.

## Contents
* `Sentence.written_text` — the text with normal spacing is the tokens written out
* `Sentence.parse_text_of_wellFormed` — it is read back as the tree
* `Sentence.parse_normal_spacing` — for every text that is read
-/

namespace Sentential

open Text

variable {parts : List Token} {rest : List Char}

/-- No word goes on with a character that is no letter. -/
theorem endsWord_of_not_isAlphabetic {c : Char} (hc : isAlphabetic c = false) : EndsWord (c :: rest) := by
  intro d hd
  obtain rfl : c = d := by simpa using hd
  exact hc

theorem endsWord_nil : EndsWord [] := by
  intro c hc
  simp at hc

namespace Sentence

/-- **The text of a sentence is its tokens written out**, in front of whatever does not prolong a word. -/
theorem written_text {t : Sentence} (ht : t.WellFormed) (hend : EndsWord rest) (h : Written parts rest) :
    Written (t.tokens ++ parts) (t.text.toList ++ rest) := by
  -- from the right: each token is written in front of what is written already
  induction t generalizing parts rest with
  | symbol s => exact h.cons _ fun _ => hend
  | negation g t ih =>
    obtain ⟨hg, _, ht⟩ := ht
    have hoperand := ih ht hend h
    have hsign := hoperand.cons g.toList fun hword => absurd hword (Reader.not_isWord_of_mem_negationGlyphs hg)
    simpa [tokens, text] using hsign
  | binary c g l r ihl ihr =>
    obtain ⟨_, _, _, hl, hr⟩ := ht
    have hright := (ihr hr hend h).blank (c := ' ') (by decide)
    -- the glyph may be the letter `v`, and a blank ends it
    have hglyph := hright.cons g.toList fun _ => endsWord_of_not_isAlphabetic (by decide)
    have hspace := hglyph.blank (c := ' ') (by decide)
    have hleft := ihl hl (endsWord_of_not_isAlphabetic (by decide)) hspace
    simpa [tokens, text] using hleft
  | group o t c ih =>
    obtain ⟨ho, hc, ht⟩ := ht
    have hcloser := isMark_of_mem_closingBrackets c hc
    have hclose := h.mark hcloser
    have hinner := ih ht (endsWord_of_not_isAlphabetic (isMark_iff.mp hcloser).1) hclose
    have hopen := hinner.mark (isMark_of_mem_openingBrackets o ho)
    simpa [tokens, text, Char.toString] using hopen

/-- **A tree of the grammar's shape is read back from its text.** -/
theorem parse_text_of_wellFormed {t : Sentence} (ht : t.WellFormed) : parse t.text = .ok t := by
  apply parse_of_written ht
  have hnothing : Written [] [] := .tail (by simp)
  simpa using written_text ht endsWord_nil hnothing

/-- **Normal spacing is a normal form.** The text with normal spacing of whatever was read is read as the
    very same tree, with every glyph and bracket. So it states the same and its own text with normal spacing
    is itself; and two texts that were read as different trees keep different texts. -/
theorem parse_normal_spacing {source : String} {t : Sentence} (h : parse source = .ok t) :
    parse t.text = .ok t ∧ Statement.parse t.text = Statement.parse source ∧
      (parse t.text).map text = .ok t.text ∧
      ∀ other t', parse other = .ok t' → (t'.text = t.text ↔ t' = t) := by
  have hread : ∀ {source t}, parse source = .ok t → parse t.text = .ok t := fun h =>
    parse_text_of_wellFormed (written_of_parse h).1
  have htext := hread h
  refine ⟨htext, ?_, ?_, ?_⟩
  · show (parse t.text).map statement = (parse source).map statement
    rw [htext, h]
  · rw [htext]
    rfl
  · intro other t' hother
    constructor
    · intro heq
      -- both trees are read from the one text
      have hback := hread hother
      rw [heq, htext] at hback
      exact (Except.ok.inj hback).symm
    · intro heq
      rw [heq]

/-- Brackets of two families, three spellings, and a symbol named as disjunction is written. -/
theorem parse_normal_spacing_mixed :
    parse "[p&&¬q)  v v" = .ok (.binary .disjunction "v"
        (.group '[' (.binary .conjunction "&&" (.symbol ⟨"p"⟩) (.negation "¬" (.symbol ⟨"q"⟩))) ')')
        (.symbol ⟨"v"⟩)) ∧
      parse "[p && ¬q) v v" = parse "[p&&¬q)  v v" := by
  have h : parse "[p&&¬q)  v v" = .ok (.binary .disjunction "v"
      (.group '[' (.binary .conjunction "&&" (.symbol ⟨"p"⟩) (.negation "¬" (.symbol ⟨"q"⟩))) ')')
      (.symbol ⟨"v"⟩)) := rfl
  refine ⟨h, ?_⟩
  rw [h]
  exact (parse_normal_spacing h).1

end Sentence

end Sentential
