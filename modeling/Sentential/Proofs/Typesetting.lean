import Mathlib.Data.Bool.AllAny
import Mathlib.Data.String.Basic
import Sentential.Proofs.Reading
import Sentential.Sentence.Typeset

/-!
# `Sentential.Proofs.Typesetting` — a text and its typeset form are read alike

Typesetting replaces two characters one by one, wherever they stand. It keeps every character in its class, so
that the typeset text is cut where the text is cut (`scan_typeset`), and it makes spellings of a connective into
spellings of the same connective and nothing else into a spelling (`exists_glyph_of_map`). The reader therefore
makes the same moves on both texts (`step_typeset`): it reads the same sentence but for the two glyphs, or it
stops at the same character and expects the same there. The two texts need not be of the same size in bytes,
which is why positions are counted in characters.

## Contents
* `affected`, `map_typesetChar_eq_iff` — the characters that matter, and parts without them
* `Scan.typeset`, `scan_typeset` — the cut of a typeset text
* `Sentence.typeset`, `Reader.typeset` — a sentence and a moment with typeset glyphs
* `Move.typeset`, `Move.of_typeset`, `step_typeset`, `run_typeset` — the reader on a typeset text
* `Sentence.text_typeset` — the text of a sentence
* `Sentence.parse_typeset` — both texts are read alike
-/

namespace Sentential

open Text

/-! ## Characters -/

/-- The characters that are replaced, and those that they are replaced by. -/
def affected : List Char := ['>', '=', '⊃', '≡']

/-- A character is replaced by its typeset form, or stays. -/
theorem typesetChar_cases (c : Char) :
    typesetChar c = c ∨ (c = '>' ∧ typesetChar c = '⊃') ∨ (c = '=' ∧ typesetChar c = '≡') := by
  unfold typesetChar
  by_cases hgreater : c = '>'
  · exact .inr (.inl ⟨hgreater, if_pos hgreater⟩)
  · rw [if_neg hgreater]
    by_cases hequal : c = '='
    · exact .inr (.inr ⟨hequal, if_pos hequal⟩)
    · exact .inl (if_neg hequal)

/-- Only affected characters are replaced. -/
theorem typesetChar_of_not_mem {c : Char} (h : c ∉ affected) : typesetChar c = c := by
  rcases typesetChar_cases c with hc | ⟨rfl, -⟩ | ⟨rfl, -⟩
  · exact hc
  · exact absurd h (by decide)
  · exact absurd h (by decide)

/-- No other character is replaced by one that is not affected. -/
theorem typesetChar_eq_iff {c x : Char} (hx : x ∉ affected) : typesetChar c = x ↔ c = x := by
  constructor
  · intro h
    rcases typesetChar_cases c with hc | ⟨rfl, hc⟩ | ⟨rfl, hc⟩
    · exact hc.symm.trans h
    · exact absurd (h ▸ hx) (by decide)
    · exact absurd (h ▸ hx) (by decide)
  · rintro rfl
    exact typesetChar_of_not_mem hx

theorem beq_typesetChar {x : Char} (hx : x ∉ affected) (c : Char) : (typesetChar c == x) = (c == x) := by
  rw [Bool.eq_iff_iff, beq_iff_eq, beq_iff_eq]
  exact typesetChar_eq_iff hx

@[simp] theorem isBlank_typesetChar (c : Char) : isBlank (typesetChar c) = isBlank c := by
  unfold isBlank
  rw [beq_typesetChar (by decide), beq_typesetChar (by decide), beq_typesetChar (by decide),
    beq_typesetChar (by decide)]

@[simp] theorem isAlphabetic_typesetChar (c : Char) : isAlphabetic (typesetChar c) = isAlphabetic c := by
  rcases typesetChar_cases c with hc | ⟨rfl, -⟩ | ⟨rfl, -⟩
  · rw [hc]
  · decide +kernel
  · decide +kernel

@[simp] theorem isDoubleGlyph_typesetChar (c d : Char) :
    isDoubleGlyph (typesetChar c) (typesetChar d) = isDoubleGlyph c d := by
  unfold isDoubleGlyph
  simp only [beq_typesetChar (show '&' ∉ affected by decide), beq_typesetChar (show '/' ∉ affected by decide),
    beq_typesetChar (show '\\' ∉ affected by decide), beq_typesetChar (show '|' ∉ affected by decide)]

/-- Letters are not affected. -/
theorem not_mem_affected_of_isAlphabetic {c : Char} (hc : isAlphabetic c = true) : c ∉ affected := by
  intro hmem
  simp only [affected, List.mem_cons, List.not_mem_nil, or_false] at hmem
  rcases hmem with rfl | rfl | rfl | rfl <;> exact absurd hc (by decide +kernel)

/-! ## Parts -/

/-- Nothing else becomes a part of characters that are not affected. -/
theorem map_typesetChar_eq_iff {part x : Token} (hx : ∀ c ∈ x, c ∉ affected) :
    part.map typesetChar = x ↔ part = x := by
  induction x generalizing part with
  | nil => exact List.map_eq_nil_iff
  | cons d x ih =>
    have hd := hx d (by simp)
    have hrest : ∀ c ∈ x, c ∉ affected := fun c hc => hx c (by simp [hc])
    cases part with
    | nil => simp
    | cons c part => rw [List.map_cons, List.cons.injEq, List.cons.injEq, typesetChar_eq_iff hd, ih hrest]

theorem not_mem_affected_of_isWord {part : Token} (h : IsWord part) : ∀ c ∈ part, c ∉ affected :=
  fun c hc => not_mem_affected_of_isAlphabetic (h.2 c hc)

theorem not_mem_affected_of_mem_negationGlyphs : ∀ g ∈ negationGlyphs, ∀ c ∈ g.toList, c ∉ affected := by
  have hglyphs : ∀ g ∈ negationGlyphs, g.toList.all (· ∉ affected) = true := by decide
  exact fun g hg => List.all_iff_forall_prop.mp (hglyphs g hg)

theorem not_mem_affected_of_mem_openingBrackets : ∀ o ∈ openingBrackets, o ∉ affected :=
  List.all_iff_forall_prop.mp (by decide)

theorem not_mem_affected_of_mem_closingBrackets : ∀ c ∈ closingBrackets, c ∉ affected :=
  List.all_iff_forall_prop.mp (by decide)

/-- The typeset form of a glyph. -/
def typesetGlyph (g : String) : String :=
  if g = ">" then "⊃" else if g = "=" then "≡" else g

/-- A spelling of a connective becomes a spelling of the same connective. -/
theorem typesetGlyph_mem {c : Connective} :
    ∀ g ∈ c.glyphs, typesetGlyph g ∈ c.glyphs ∧ g.toList.map typesetChar = (typesetGlyph g).toList := by
  cases c <;> decide

/-- A spelling has no affected character, or is one. -/
theorem glyph_cases {c : Connective} {g : String} (hg : g ∈ c.glyphs) :
    (∀ x ∈ g.toList, x ∉ affected) ∨ ∃ y ∈ affected, g.toList = [y] := by
  have hcases : ∀ g ∈ c.glyphs, g.toList.all (· ∉ affected) = true ∨
      affected.any (g.toList = [·]) = true := by
    cases c <;> decide
  exact (hcases g hg).imp List.all_iff_forall_prop.mp List.any_iff_exists_prop.mp

/-- Only a spelling of a connective becomes one. -/
theorem exists_glyph_of_map {c : Connective} {part : Token} {g : String} (hg : g ∈ c.glyphs)
    (h : part.map typesetChar = g.toList) : ∃ g' ∈ c.glyphs, part = g'.toList := by
  rcases glyph_cases hg with hnot | ⟨y, hy, hsingle⟩
  · exact ⟨g, hg, (map_typesetChar_eq_iff hnot).mp h⟩
  · rw [hsingle] at h
    obtain ⟨x, rfl, hx⟩ := List.map_eq_singleton_iff.mp h
    have hmem : x ∈ affected := by
      by_cases hnot : x ∈ affected
      · exact hnot
      · rwa [← (typesetChar_of_not_mem hnot).symm.trans hx] at hy
    have hback : ∀ g ∈ c.glyphs,
        affected.all (fun x => g.toList = [typesetChar x] → String.ofList [x] ∈ c.glyphs) = true := by
      cases c <;> decide
    have hglyph := List.all_iff_forall_prop.mp (hback g hg) x hmem (by rw [hsingle, hx])
    exact ⟨_, hglyph, String.toList_ofList.symm⟩

/-! ## The cut of a typeset text -/

/-- A lexeme with its characters typeset. -/
def Lexeme.typeset (l : Lexeme) : Lexeme := ⟨l.gap.map typesetChar, l.part.map typesetChar⟩

theorem Lexeme.continues_typeset (l : Lexeme) : l.typeset.continues = l.continues := by
  obtain ⟨gap, part⟩ := l
  cases part <;> simp [typeset, continues]

namespace Scan

/-- A cut text with its characters typeset. -/
def typeset (s : Scan) : Scan := ⟨s.lexemes.map Lexeme.typeset, s.tail.map typesetChar⟩

theorem typeset_consPart (part : Token) (s : Scan) :
    (s.consPart part).typeset = s.typeset.consPart (part.map typesetChar) := rfl

theorem typeset_consBlank (c : Char) (s : Scan) :
    (s.consBlank c).typeset = s.typeset.consBlank (typesetChar c) := by
  obtain ⟨lexemes, tail⟩ := s
  cases lexemes <;> rfl

theorem typeset_consLetter (c : Char) (s : Scan) :
    (s.consLetter c).typeset = s.typeset.consLetter (typesetChar c) := by
  obtain ⟨lexemes, tail⟩ := s
  cases lexemes with
  | nil => rfl
  | cons l rest =>
    have hcontinues := l.continues_typeset
    simp only [consLetter, typeset, List.map_cons, hcontinues]
    split <;> rfl

theorem typeset_consChar (c : Char) (s : Scan) :
    (s.consChar c).typeset = s.typeset.consChar (typesetChar c) := by
  unfold consChar
  rw [isBlank_typesetChar, isAlphabetic_typesetChar]
  split
  · exact typeset_consBlank c s
  · split
    · exact typeset_consLetter c s
    · exact typeset_consPart [c] s

end Scan

/-- **A typeset text is cut where the text is cut.** -/
theorem scan_typeset (cs : List Char) : scan (cs.map typesetChar) = (scan cs).typeset := by
  fun_induction scan cs with
  | case1 => rfl
  | case2 c => exact (Scan.typeset_consChar c ⟨[], []⟩).symm
  | case3 c d rest h ih =>
    simp only [List.map_cons, scan, isDoubleGlyph_typesetChar, h, if_true, ih, Scan.typeset_consPart,
      List.map_nil]
  | case4 c d rest h ih =>
    rw [List.map_cons] at ih
    simp only [List.map_cons, scan, isDoubleGlyph_typesetChar, h, ih, Scan.typeset_consChar]
    rfl

/-! ## Sentences and moments with typeset glyphs -/

/-- The sentence with its conditionals and biconditionals typeset and all else as it is. -/
def Sentence.typeset : Sentence → Sentence
  | symbol s => symbol s
  | negation g t => negation g t.typeset
  | binary c g l r => binary c (typesetGlyph g) l.typeset r.typeset
  | group o t c => group o t.typeset c

/-- Typesetting does not change what a sentence states. -/
theorem Sentence.statement_typeset (t : Sentence) : t.typeset.statement = t.statement := by
  induction t with
  | symbol s => rfl
  | negation g t ih => rw [typeset, statement, ih, statement]
  | binary c g l r ihl ihr => rw [typeset, statement, ihl, ihr, statement]
  | group o t c ih => rw [typeset, statement, ih, statement]

/-- An open frame with typeset glyphs. -/
def Frame.typeset : Frame → Frame
  | negation g => negation g
  | left l c g => left l.typeset c (typesetGlyph g)
  | group o => group o

theorem Frame.isGroup_typeset (f : Frame) : f.typeset.isGroup = f.isGroup := by
  cases f <;> rfl

theorem collapse_typeset (ends : Connective → Bool) (stack : List Frame) (t : Sentence) :
    collapse ends (stack.map Frame.typeset) t.typeset
      = ((collapse ends stack t).1.map Frame.typeset, (collapse ends stack t).2.typeset) := by
  fun_induction collapse ends stack t with
  | case1 l c g stack r hends ih =>
    rw [Sentence.typeset] at ih
    rw [List.map_cons, Frame.typeset, collapse, if_pos hends, ih]
  | case2 l c g stack r hends => rw [List.map_cons, Frame.typeset, collapse, if_neg hends]
  | case3 stack r hstop =>
    cases stack with
    | nil => rfl
    | cons f rest =>
      cases f with
      | negation g => rfl
      | left l c g => exact absurd rfl (hstop l c g rest)
      | group o => rfl

theorem closeNegations_typeset (stack : List Frame) (t : Sentence) :
    closeNegations (stack.map Frame.typeset) t.typeset
      = ((closeNegations stack t).1.map Frame.typeset, (closeNegations stack t).2.typeset) := by
  fun_induction closeNegations stack t with
  | case1 g stack t ih =>
    rw [Sentence.typeset] at ih
    rw [List.map_cons, Frame.typeset, closeNegations, ih]
  | case2 stack t hstop =>
    cases stack with
    | nil => rfl
    | cons f rest =>
      cases f with
      | negation g => exact absurd rfl (hstop g rest)
      | left l c g => rfl
      | group o => rfl

namespace Reader

/-- A moment with typeset glyphs. -/
def typeset : Reader → Reader
  | operand stack => operand (stack.map Frame.typeset)
  | operator stack last => operator (stack.map Frame.typeset) last.typeset

theorem typeset_completed (stack : List Frame) (t : Sentence) :
    (completed stack t).typeset = completed (stack.map Frame.typeset) t.typeset := by
  simp only [completed, typeset, closeNegations_typeset]

/-- The same could come next. -/
theorem expected_typeset (r : Reader) : r.typeset.expected = r.expected := by
  cases r with
  | operand stack => rfl
  | operator stack last =>
    simp only [typeset, expected, List.any_map]
    rw [show Frame.isGroup ∘ Frame.typeset = Frame.isGroup from funext Frame.isGroup_typeset]

/-- The sentence that may end is the same but for its glyphs. -/
theorem finish?_typeset (r : Reader) : r.typeset.finish? = r.finish?.map Sentence.typeset := by
  cases r with
  | operand stack => rfl
  | operator stack last =>
    simp only [typeset, finish?, collapse_typeset]
    obtain ⟨stack', t⟩ := collapse (fun _ => true) stack last
    cases stack' <;> rfl

/-! ## The reader on a typeset text -/

/-- A move on a part is one on the typeset part. -/
theorem Move.typeset {r r' : Reader} {part : Token} (h : Move r part r') :
    Move r.typeset (part.map typesetChar) r'.typeset := by
  cases h with
  | @negation stack g hg =>
    rw [(map_typesetChar_eq_iff (not_mem_affected_of_mem_negationGlyphs g hg)).mpr rfl]
    exact .negation hg
  | @opening stack o ho =>
    rw [List.map_singleton, typesetChar_of_not_mem (not_mem_affected_of_mem_openingBrackets o ho)]
    exact .opening ho
  | @symbol stack s hs =>
    rw [(map_typesetChar_eq_iff (not_mem_affected_of_isWord hs)).mpr rfl, typeset_completed]
    exact .symbol hs
  | @connective stack stack' last l c g hg hcollapse =>
    obtain ⟨hmem, hglyph⟩ := typesetGlyph_mem g hg
    rw [hglyph]
    refine .connective hmem ?_
    rw [collapse_typeset, hcollapse]
  | @closing stack stack' last inner o c hc hcollapse =>
    rw [List.map_singleton, typesetChar_of_not_mem (not_mem_affected_of_mem_closingBrackets c hc),
      typeset_completed]
    refine .closing hc ?_
    rw [collapse_typeset, hcollapse]
    rfl

/-- The reader moves on a typeset part only if it moves on the part. -/
theorem Move.of_typeset {r q : Reader} {part : Token} (h : Move r.typeset (part.map typesetChar) q) :
    ∃ r', Move r part r' := by
  generalize hpart : part.map typesetChar = x at h
  cases r with
  | operand stack =>
    rw [Reader.typeset] at h
    cases h with
    | @negation _ g hg =>
      rw [(map_typesetChar_eq_iff (not_mem_affected_of_mem_negationGlyphs g hg)).mp hpart]
      exact ⟨_, .negation hg⟩
    | @opening _ o ho =>
      have hnot : ∀ c ∈ [o], c ∉ affected := by simpa using not_mem_affected_of_mem_openingBrackets o ho
      rw [(map_typesetChar_eq_iff hnot).mp hpart]
      exact ⟨_, .opening ho⟩
    | @symbol _ s hs =>
      rw [(map_typesetChar_eq_iff (not_mem_affected_of_isWord hs)).mp hpart]
      exact ⟨_, .symbol hs⟩
  | operator stack last =>
    rw [Reader.typeset] at h
    cases h with
    | @connective _ stack' _ l c g hg hcollapse =>
      obtain ⟨g', hg', rfl⟩ := exists_glyph_of_map hg hpart
      exact ⟨_, .connective hg' rfl⟩
    | @closing _ stack' _ inner o c hc hcollapse =>
      have hnot : ∀ x ∈ [c], x ∉ affected := by simpa using not_mem_affected_of_mem_closingBrackets c hc
      rw [(map_typesetChar_eq_iff hnot).mp hpart]
      -- a group is open in the typeset stack, so it is open in the stack
      obtain ⟨stack₀, t, hcollapse₀⟩ : ∃ stack₀ t, collapse (fun _ => true) stack last = (stack₀, t) :=
        ⟨_, _, rfl⟩
      rw [collapse_typeset, hcollapse₀] at hcollapse
      obtain ⟨f, rest, rfl, hf, -⟩ := List.map_eq_cons_iff.mp (Prod.mk.inj hcollapse).1
      cases f with
      | negation g => exact absurd hf (by simp [Frame.typeset])
      | left l d g => exact absurd hf (by simp [Frame.typeset])
      | group o => exact ⟨_, .closing hc hcollapse₀⟩

/-- **A step on a typeset part is the step on the part**, with the glyphs typeset. -/
theorem step_typeset (r : Reader) (part : Token) :
    r.typeset.step (part.map typesetChar) = (r.step part).map typeset := by
  cases hstep : r.step part with
  | some r' => exact (step_eq_some_iff.mp hstep).typeset.step
  | none =>
    cases htypeset : r.typeset.step (part.map typesetChar) with
    | none => rfl
    | some q =>
      obtain ⟨r', hmove⟩ := (step_eq_some_iff.mp htypeset).of_typeset
      rw [hmove.step] at hstep
      exact absurd hstep (by simp)

/-- A run on typeset lexemes stops where the run on the lexemes stops, or ends as that ends. -/
theorem run_typeset (r : Reader) (position : Nat) (lexemes : List Lexeme) :
    r.typeset.run position (lexemes.map Lexeme.typeset) = (r.run position lexemes).map typeset := by
  induction lexemes generalizing r position with
  | nil => rfl
  | cons l rest ih =>
    have hstep : r.typeset.step l.typeset.part = (r.step l.part).map typeset := step_typeset r l.part
    have hgap : l.typeset.gap.length = l.gap.length := List.length_map ..
    have hpart : l.typeset.part.length = l.part.length := List.length_map ..
    rw [List.map_cons, run, run, hstep, hgap, hpart, expected_typeset]
    cases r.step l.part with
    | none => rfl
    | some next => exact ih next _

end Reader

/-! ## Texts -/

/-- **The characters of a text and their typeset forms are read alike.** -/
theorem Sentence.parseChars_typeset (cs : List Char) :
    Sentence.parseChars (cs.map typesetChar) = (Sentence.parseChars cs).map Sentence.typeset := by
  have hrun : Reader.start.run 0 (scan cs).typeset.lexemes
      = (Reader.start.run 0 (scan cs).lexemes).map Reader.typeset := Reader.run_typeset Reader.start 0 _
  simp only [Sentence.parseChars, scan_typeset, List.length_map, hrun]
  cases Reader.start.run 0 (scan cs).lexemes with
  | error fault => rfl
  | ok r =>
    simp only [Except.map, Reader.finish?_typeset, Reader.expected_typeset]
    cases r.finish? <;> rfl

theorem typeset_append (source more : String) : typeset (source ++ more) = typeset source ++ typeset more := by
  simp [typeset, String.ofList_append]

/-- A text without affected characters stays. -/
theorem typeset_of_not_mem {source : String} (h : ∀ c ∈ source.toList, c ∉ affected) :
    typeset source = source := by
  rw [typeset, (map_typesetChar_eq_iff h).mpr rfl, String.ofList_toList]

/-- The text of a sentence with typeset glyphs is the typeset text of the sentence. -/
theorem Sentence.text_typeset {t : Sentence} (ht : t.WellFormed) :
    t.typeset.text = Sentential.typeset t.text := by
  induction t with
  | symbol s => exact (typeset_of_not_mem (not_mem_affected_of_isWord ht)).symm
  | negation g t ih =>
    obtain ⟨hg, _, ht⟩ := ht
    rw [typeset, text, text, ih ht, typeset_append,
      typeset_of_not_mem (not_mem_affected_of_mem_negationGlyphs g hg)]
  | binary c g l r ihl ihr =>
    obtain ⟨hg, _, _, hl, hr⟩ := ht
    have hglyph : Sentential.typeset g = typesetGlyph g := by
      rw [Sentential.typeset, (typesetGlyph_mem g hg).2, String.ofList_toList]
    have hspace : Sentential.typeset " " = " " := by decide
    simp only [typeset, text, ihl hl, ihr hr, typeset_append, hglyph, hspace]
  | group o t c ih =>
    obtain ⟨ho, hc, ht⟩ := ht
    have hopener : Sentential.typeset o.toString = o.toString :=
      typeset_of_not_mem (by simpa using not_mem_affected_of_mem_openingBrackets o ho)
    have hcloser : Sentential.typeset c.toString = c.toString :=
      typeset_of_not_mem (by simpa using not_mem_affected_of_mem_closingBrackets c hc)
    rw [typeset, text, text, ih ht, typeset_append, typeset_append, hopener, hcloser]

/-- The bytes of a character and of its typeset form. -/
theorem utf8Size_typesetChar (c : Char) :
    (typesetChar c).utf8Size = c.utf8Size + if c ∈ ['>', '='] then 2 else 0 := by
  rcases typesetChar_cases c with hc | ⟨rfl, -⟩ | ⟨rfl, -⟩
  · have hnot : c ∉ ['>', '='] := by
      intro hmem
      simp only [List.mem_cons, List.not_mem_nil, or_false] at hmem
      rcases hmem with rfl | rfl <;> exact absurd hc (by decide)
    rw [hc, if_neg hnot, Nat.add_zero]
  · decide
  · decide

/-- Each character that is replaced takes two bytes more. -/
theorem utf8Len_map_typesetChar (cs : List Char) :
    String.utf8Len (cs.map typesetChar) = String.utf8Len cs + 2 * cs.countP (· ∈ ['>', '=']) := by
  induction cs with
  | nil => rfl
  | cons c cs ih =>
    rw [List.map_cons, String.utf8Len_cons, String.utf8Len_cons, ih, List.countP_cons, utf8Size_typesetChar]
    by_cases hc : c ∈ ['>', '=']
    · rw [if_pos hc, if_pos (decide_eq_true hc)]
      omega
    · rw [if_neg hc, if_neg (by simpa using hc)]
      omega

/-- **Typesetting does not change how a text is read.** A text that is a sentence stays one: it states the same,
    its conditionals and biconditionals are typeset and all else is as it was, and so is its text. A text that is
    no sentence stays none, and the fault is the same, although the text may have more bytes. Typesetting twice
    is typesetting once. -/
theorem Sentence.parse_typeset (source : String) :
    (match Sentence.parse source with
      | .ok t => Sentence.parse (Sentential.typeset source) = .ok t.typeset ∧
          t.typeset.statement = t.statement ∧ t.typeset.text = Sentential.typeset t.text
      | .error fault => Sentence.parse (Sentential.typeset source) = .error fault) ∧
    Sentential.typeset (Sentential.typeset source) = Sentential.typeset source ∧
    (Sentential.typeset source).length = source.length ∧
    (Sentential.typeset source).utf8ByteSize
      = source.utf8ByteSize + 2 * source.toList.countP (· ∈ ['>', '=']) := by
  have hparse : Sentence.parse (Sentential.typeset source) = (Sentence.parse source).map Sentence.typeset := by
    rw [Sentence.parse, Sentential.typeset, String.toList_ofList, Sentence.parseChars_typeset, Sentence.parse]
  refine ⟨?_, typeset_typeset source, ?_, ?_⟩
  · rw [hparse]
    cases hread : Sentence.parse source with
    | error fault => rfl
    | ok t => exact ⟨rfl, t.statement_typeset, text_typeset (written_of_parse hread).1⟩
  · rw [Sentential.typeset, String.length_ofList, List.length_map, String.length_toList]
  · rw [Sentential.typeset, String.utf8ByteSize_ofList, utf8Len_map_typesetChar, ← String.utf8ByteSize_ofList,
      String.ofList_toList]

end Sentential
