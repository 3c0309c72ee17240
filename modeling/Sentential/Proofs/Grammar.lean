import Sentential.Sentence.Parser

/-!
# `Sentential.Proofs.Grammar` — the grammar of sentences, said without a reader

Two things make a text a sentence. Its tree has the right **shape**: every glyph is listed for its operator,
and an operand binds as tightly as its place asks. And the text is the tree's tokens **written out**, with
blanks in front of each and at the end, so that no two of them run together. Both are said here on trees and
token lists alone; the stack and the cut of the reader do not occur.

## Contents
* `IsWord` — the tokens that are runs of letters: symbols and the glyph `v`
* `Sentence.level`, `Sentence.WellFormed` — the shape
* `isMark` — the characters of glyphs and brackets
* `WellFormed.forall_mem_tokens` — the tokens of a sentence are words, glyphs and brackets
* `Written`, `Written.append` — tokens written out as characters, and one writing behind another
-/

namespace Sentential

open Text

/-! ## Words -/

/-- A token that is a run of letters. -/
def IsWord (part : Token) : Prop := part ≠ [] ∧ ∀ c ∈ part, isAlphabetic c = true

instance (part : Token) : Decidable (IsWord part) :=
  decidable_of_iff ((!part.isEmpty && part.all isAlphabetic) = true) (by simp [IsWord])

/-- A symbol whose name can be written: a run of letters. -/
def Symbol.Writable (s : Symbol) : Prop := IsWord s.name.toList

instance (s : Symbol) : Decidable s.Writable := inferInstanceAs (Decidable (IsWord _))

/-! ## Shape -/

namespace Sentence

/-- How loosely the root binds: a connective by its looseness counted from one; negations, groups and
    symbols bind tightest. -/
def level : Sentence → Nat
  | binary c _ _ _ => c.looseness + 1
  | _ => 0

/-- The tree has the grammar's shape. Left operands bind strictly tighter than their connective and right
    operands at least as tightly, so chains of one connective nest to the right. -/
def WellFormed : Sentence → Prop
  | symbol s => s.Writable
  | negation g t => g ∈ negationGlyphs ∧ t.level = 0 ∧ t.WellFormed
  | binary c g l r =>
    g ∈ c.glyphs ∧ l.level < c.looseness + 1 ∧ r.level ≤ c.looseness + 1 ∧ l.WellFormed ∧ r.WellFormed
  | group o t c => o ∈ openingBrackets ∧ c ∈ closingBrackets ∧ t.WellFormed

/-- The shape of a tree can be decided. -/
instance decidableWellFormed : (t : Sentence) → Decidable t.WellFormed
  | symbol s => inferInstanceAs (Decidable s.Writable)
  | negation g t =>
    have := decidableWellFormed t
    inferInstanceAs (Decidable (g ∈ negationGlyphs ∧ t.level = 0 ∧ t.WellFormed))
  | binary c g l r =>
    have := decidableWellFormed l
    have := decidableWellFormed r
    inferInstanceAs (Decidable (g ∈ c.glyphs ∧ l.level < c.looseness + 1 ∧ r.level ≤ c.looseness + 1 ∧
      l.WellFormed ∧ r.WellFormed))
  | group o t c =>
    have := decidableWellFormed t
    inferInstanceAs (Decidable (o ∈ openingBrackets ∧ c ∈ closingBrackets ∧ t.WellFormed))

end Sentence

/-! ## Character classes

Every operator glyph but `v` and every bracket is made of characters that are neither letters nor blanks. -/

/-- A character that is neither a letter nor a blank. -/
def isMark (c : Char) : Bool := !isAlphabetic c && !isBlank c

theorem isMark_iff {c : Char} : isMark c = true ↔ isAlphabetic c = false ∧ isBlank c = false := by
  simp [isMark]

/-- A blank is no letter. -/
theorem isAlphabetic_of_isBlank {c : Char} (h : isBlank c = true) : isAlphabetic c = false := by
  simp only [isBlank, Bool.or_eq_true, beq_iff_eq] at h
  rcases h with ((rfl | rfl) | rfl) | rfl <;> decide

/-- A letter is no mark. -/
theorem isMark_of_isAlphabetic {c : Char} (h : isAlphabetic c = true) : isMark c = false := by
  simp [isMark, h]

/-- A blank is no mark. -/
theorem isMark_of_isBlank {c : Char} (h : isBlank c = true) : isMark c = false := by
  simp [isMark, h]

/-- A token that starts with a mark is no word. -/
theorem not_isWord_of_isMark {c : Char} {rest : Token} (hc : isMark c = true) : ¬ IsWord (c :: rest) := by
  intro h
  rw [isMark_of_isAlphabetic (h.2 c (by simp))] at hc
  exact absurd hc (by simp)

theorem isMark_of_mem_openingBrackets : ∀ o ∈ openingBrackets, isMark o = true :=
  List.all_eq_true.mp (by decide)

theorem isMark_of_mem_closingBrackets : ∀ c ∈ closingBrackets, isMark c = true :=
  List.all_eq_true.mp (by decide)

/-- `v` is the only glyph of a connective that is made of letters. -/
theorem glyph_eq_v_or_isMark (c : Connective) :
    ∀ g ∈ c.glyphs, g = "v" ∨ ∀ x ∈ g.toList, isMark x = true := by
  have hmarks : ∀ g ∈ c.glyphs, g = "v" ∨ g.toList.all isMark = true := by cases c <;> decide +kernel
  exact fun g hg => (hmarks g hg).imp_right List.all_eq_true.mp

/-! ## Tokens -/

/-- **The tokens of a sentence are words, glyphs and brackets**: what holds of all of these holds of each of
    them. -/
theorem Sentence.WellFormed.forall_mem_tokens {P : Token → Prop} {t : Sentence} (ht : t.WellFormed)
    (hword : ∀ part, IsWord part → P part) (hnegation : ∀ g ∈ negationGlyphs, P g.toList)
    (hglyph : ∀ c : Connective, ∀ g ∈ c.glyphs, P g.toList) (hopener : ∀ o ∈ openingBrackets, P [o])
    (hcloser : ∀ c ∈ closingBrackets, P [c]) : ∀ part ∈ t.tokens, P part := by
  intro part hpart
  induction t with
  | symbol s =>
    obtain rfl := List.mem_singleton.mp hpart
    exact hword _ ht
  | negation g t ih =>
    rcases List.mem_cons.mp hpart with rfl | hpart
    · exact hnegation g ht.1
    · exact ih ht.2.2 hpart
  | binary c g l r ihl ihr =>
    obtain ⟨hg, _, _, hl, hr⟩ := ht
    rcases List.mem_append.mp hpart with hpart | hpart
    · exact ihl hl hpart
    · rcases List.mem_cons.mp hpart with rfl | hpart
      · exact hglyph c g hg
      · exact ihr hr hpart
  | group o t c ih =>
    obtain ⟨ho, hc, ht⟩ := ht
    rcases List.mem_append.mp hpart with hpart | hpart
    · rcases List.mem_cons.mp hpart with rfl | hpart
      · exact hopener o ho
      · exact ih ht hpart
    · obtain rfl := List.mem_singleton.mp hpart
      exact hcloser c hc

/-- No blank occurs in a token. -/
theorem Sentence.WellFormed.isBlank_of_mem_tokens {t : Sentence} (ht : t.WellFormed) :
    ∀ part ∈ t.tokens, ∀ c ∈ part, isBlank c = false := by
  have hmark : ∀ {c : Char}, isMark c = true → ∀ x ∈ [c], isBlank x = false := by
    intro c hc x hx
    obtain rfl := List.mem_singleton.mp hx
    exact (isMark_iff.mp hc).2
  have hletter : ∀ part, IsWord part → ∀ c ∈ part, isBlank c = false := by
    intro part hpart c hc
    cases hblank : isBlank c with
    | false => rfl
    | true => exact absurd (hpart.2 c hc) (by simp [isAlphabetic_of_isBlank hblank])
  have hglyph : ∀ g : String, g.toList.all (!isBlank ·) = true → ∀ c ∈ g.toList, isBlank c = false := by
    intro g hg c hc
    rw [← Bool.not_eq_true']
    exact List.all_eq_true.mp hg c hc
  refine ht.forall_mem_tokens hletter (fun g hg => hglyph g ?_) (fun c g hg => hglyph g ?_)
    (fun o ho => hmark (isMark_of_mem_openingBrackets o ho))
    fun c hc => hmark (isMark_of_mem_closingBrackets c hc)
  · revert g
    decide +kernel
  · revert g
    cases c <;> decide +kernel

/-! ## Written texts -/

/-- The text does not go on with a letter. -/
def EndsWord (cs : List Char) : Prop := ∀ c ∈ cs.head?, isAlphabetic c = false

/-- A text that goes on with no letter, and one behind it that starts with none. -/
theorem EndsWord.append {cs ds : List Char} (hcs : EndsWord cs) (hds : EndsWord ds) : EndsWord (cs ++ ds) := by
  cases cs with
  | nil => exact hds
  | cons c cs => exact hcs

theorem EndsWord.of_append {cs ds : List Char} (h : EndsWord (cs ++ ds)) : EndsWord cs := by
  cases cs with
  | nil => exact fun c hc => absurd hc (by simp)
  | cons c cs => exact h

/-- The characters are the tokens from left to right, with blanks before each and at the end. A word, which
    is a symbol or the glyph `v`, is not directly followed by a letter. -/
inductive Written : List Token → List Char → Prop where
  | tail {blanks : List Char} (hblank : ∀ c ∈ blanks, isBlank c = true) : Written [] blanks
  | part {gap : List Char} {part : Token} {parts : List Token} {rest : List Char}
      (hgap : ∀ c ∈ gap, isBlank c = true) (hend : IsWord part → EndsWord rest)
      (hrest : Written parts rest) : Written (part :: parts) (gap ++ part ++ rest)

namespace Written

variable {parts : List Token} {cs : List Char}

/-- One more blank in front. -/
theorem blank {c : Char} (hc : isBlank c = true) (h : Written parts cs) : Written parts (c :: cs) := by
  cases h with
  | tail hblank => exact .tail (by simpa [hc] using hblank)
  | @part gap part parts rest hgap hend hrest =>
    have hgap' : ∀ x ∈ c :: gap, isBlank x = true := by simpa [hc] using hgap
    exact .part hgap' hend hrest

/-- A part in front, without a blank. -/
theorem cons (part : Token) (hend : IsWord part → EndsWord cs) (h : Written parts cs) :
    Written (part :: parts) (part ++ cs) := by
  have hgap : ∀ c ∈ ([] : List Char), isBlank c = true := by simp
  exact .part hgap hend h

/-- A mark in front, without a blank. -/
theorem mark {c : Char} (hc : isMark c = true) (h : Written parts cs) : Written ([c] :: parts) (c :: cs) :=
  h.cons [c] fun hword => absurd hword (not_isWord_of_isMark hc)

/-- Tokens written behind others, starting with no letter. -/
theorem append {more : List Token} {ds : List Char} (h : Written parts cs) (hmore : Written more ds)
    (hstart : EndsWord ds) : Written (parts ++ more) (cs ++ ds) := by
  induction h with
  | @tail blanks hblank =>
    -- the blanks at the end go in front of what follows
    induction blanks with
    | nil => exact hmore
    | cons c blanks ih => exact (ih fun d hd => hblank d (by simp [hd])).blank (hblank c (by simp))
  | @part gap part parts rest hgap hend hrest ih =>
    rw [List.append_assoc]
    exact .part hgap (fun hword => (hend hword).append hstart) ih

end Written

end Sentential
