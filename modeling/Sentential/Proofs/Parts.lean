import Mathlib.Data.List.TakeWhile
import Sentential.Proofs.Moves
import Sentential.Sentence.Descent

/-!
# `Sentential.Proofs.Parts` — the next part of a text, looked for by trial

`Sentence.descend` looks for one kind of part after another at the same place of a text; `scan` cuts the text
once and decides nothing. Both see the same **next part** (`NextPart`): a glyph, a bracket or a word is found
by trial exactly if it is that part, and it is then read whole (`Reads`). For glyphs this needs that in a list of
them a longer one stands before its own beginning.

The other half is the record. At every place it is either new or holds the names that were looked for there
(`Record.reach`), later places make it void, and earlier ones do not change it.

## Contents
* `NextPart`, `NextPart.scan_eq`, `NextPart.unique` — the next part of a text, and the cut there
* `Reads`, `reads_word`, `reads_character`, `reads_glyph` — parts found by trial
* `Record.note_reached`, `Record.note_before` — the record at a place and before one
* `place_lt`, `fault_eq` — places in bytes and in characters
* `token_found`, `token_missing` — one trial
-/

namespace Sentential

open Text Descent

/-! ## The next part -/

/-- Behind blanks, the text goes on with the part, and the rest does not prolong it. -/
structure NextPart (cs : List Char) (part : Token) (rest : List Char) : Prop where
  text : afterBlanks cs = part ++ rest
  lexical : Lexical part
  ends : EndsBefore part rest

/-- What is behind the members of a class at the beginning does not start with one. -/
theorem eq_false_of_mem_head?_dropWhile {p : Char → Bool} {cs : List Char} {c : Char}
    (h : c ∈ (cs.dropWhile p).head?) : p c = false := by
  have hhead := List.head?_dropWhile_not p cs
  rw [Option.mem_def.mp h] at hhead
  exact hhead

/-- A text begins with a word, with two characters that belong together, or with another single one. -/
theorem exists_lexical {c : Char} {cs : List Char} (hc : isBlank c = false) :
    ∃ part rest, c :: cs = part ++ rest ∧ Lexical part ∧ EndsBefore part rest := by
  by_cases hletter : isAlphabetic c = true
  · have hword : IsWord (c :: cs.takeWhile isAlphabetic) := by
      refine ⟨by simp, ?_⟩
      intro d hd
      rcases List.mem_cons.mp hd with rfl | hd
      · exact hletter
      · exact List.mem_takeWhile_imp hd
    refine ⟨_, cs.dropWhile isAlphabetic, by simp, .word hword, ?_, ?_⟩
    · exact fun _ d hd => eq_false_of_mem_head?_dropWhile hd
    · intro d hd e _
      obtain rfl : c = d := (List.cons.inj hd).1
      exact isDoubleGlyph_of_left (isMark_of_isAlphabetic hletter) e
  · have hmark : isMark c = true := by simp [isMark, hc, hletter]
    by_cases hdouble : ∀ d ∈ cs.head?, isDoubleGlyph c d = false
    · refine ⟨[c], cs, rfl, .single hmark, fun hword => absurd hword (not_isWord_of_isMark hmark), ?_⟩
      intro d hd
      obtain rfl : c = d := (List.cons.inj hd).1
      exact hdouble
    · cases cs with
      | nil => exact absurd (by simp) hdouble
      | cons d rest =>
        refine ⟨[c, d], rest, rfl, .double (by simpa using hdouble), ?_, by simp⟩
        exact fun hword => absurd hword (not_isWord_of_isMark hmark)

/-- A text has a next part, or consists of blanks. -/
theorem nextPart_or_blank (cs : List Char) : (∃ part rest, NextPart cs part rest) ∨ afterBlanks cs = [] := by
  cases htext : afterBlanks cs with
  | nil => exact .inr rfl
  | cons c more =>
    have hhead : c ∈ (cs.dropWhile isBlank).head? := by
      show (afterBlanks cs).head? = some c
      rw [htext, List.head?_cons]
    have hparts : ∃ part rest, c :: more = part ++ rest ∧ Lexical part ∧ EndsBefore part rest :=
      exists_lexical (eq_false_of_mem_head?_dropWhile hhead)
    obtain ⟨part, rest, heq, hpart, hend⟩ := hparts
    exact .inl ⟨part, rest, htext.trans heq, hpart, hend⟩

/-- Blanks in front of a text go into the gap of its first part. -/
theorem scan_blanks {gap cs : List Char} {l : Lexeme} {lexemes : List Lexeme} {tail : List Char}
    (hgap : ∀ c ∈ gap, isBlank c = true) (h : scan cs = ⟨l :: lexemes, tail⟩) :
    scan (gap ++ cs) = ⟨⟨gap ++ l.gap, l.part⟩ :: lexemes, tail⟩ := by
  induction gap with
  | nil => exact h
  | cons c gap ih =>
    have hc := hgap c (by simp)
    have hdouble : ∀ d ∈ (gap ++ cs).head?, isDoubleGlyph c d = false := by
      intro d _
      exact isDoubleGlyph_of_left (isMark_of_isBlank hc) d
    rw [List.cons_append, scan_cons hdouble, Scan.consChar_blank hc, ih fun d hd => hgap d (by simp [hd])]
    rfl

/-- A text of blanks has no parts. -/
theorem lexemes_scan_of_blank {cs : List Char} (h : afterBlanks cs = []) : (scan cs).lexemes = [] := by
  have hblank : ∀ c ∈ cs, isBlank c = true := List.dropWhile_eq_nil_iff.mp h
  have htokens := scan_gap hblank []
  rw [List.append_nil] at htokens
  exact List.map_eq_nil_iff.mp htokens

theorem afterBlanks_suffix (cs : List Char) : afterBlanks cs <:+ cs := List.dropWhile_suffix _

namespace NextPart

variable {cs rest : List Char} {part : Token}

theorem suffix (h : NextPart cs part rest) : rest <:+ cs := by
  have hrest : rest <:+ afterBlanks cs := h.text ▸ List.suffix_append part rest
  exact hrest.trans (afterBlanks_suffix cs)

/-- The blanks, the part and the rest are the text. -/
theorem append_eq (h : NextPart cs part rest) : cs.takeWhile isBlank ++ (part ++ rest) = cs := by
  rw [← h.text]
  exact List.takeWhile_append_dropWhile

theorem length_eq (h : NextPart cs part rest) :
    (cs.takeWhile isBlank).length + (part.length + rest.length) = cs.length := by
  rw [← List.length_append, ← List.length_append, h.append_eq]

/-- **The cut of a text begins with its next part**, and goes on with the cut of the rest. -/
theorem scan_eq (h : NextPart cs part rest) :
    scan cs = ⟨⟨cs.takeWhile isBlank, part⟩ :: (scan rest).lexemes, (scan rest).tail⟩ := by
  have hblanks : ∀ c ∈ cs.takeWhile isBlank, isBlank c = true := fun c hc => List.mem_takeWhile_imp hc
  have hscan := scan_blanks hblanks (scan_append h.lexical h.ends)
  rwa [h.append_eq, List.append_nil] at hscan

/-- There is one next part. -/
theorem unique {part' : Token} {rest' : List Char} (h : NextPart cs part rest) (h' : NextPart cs part' rest') :
    part = part' ∧ rest = rest' := by
  have hscan := h.scan_eq.symm.trans h'.scan_eq
  simp only [Scan.mk.injEq, List.cons.injEq, Lexeme.mk.injEq, true_and] at hscan
  obtain ⟨⟨rfl, -⟩, -⟩ := hscan
  exact ⟨rfl, List.append_cancel_left (h.text.symm.trans h'.text)⟩

end NextPart

/-! ## Words in front of a text -/

/-- A part that is no word begins with no letter. -/
theorem Lexical.isWord_or_isMark {part : Token} (h : Lexical part) :
    IsWord part ∨ ∃ c more, part = c :: more ∧ isMark c = true := by
  cases h with
  | word hword => exact .inl hword
  | double hdouble => exact .inr ⟨_, _, rfl, (isMark_of_isDoubleGlyph hdouble).1⟩
  | single hmark => exact .inr ⟨_, _, rfl, hmark⟩

/-- The letters at the beginning of a text, behind which no letter follows. -/
theorem takeWhile_letters {part rest : List Char} (hpart : ∀ c ∈ part, isAlphabetic c = true)
    (hend : EndsWord rest) :
    (part ++ rest).takeWhile isAlphabetic = part ∧ (part ++ rest).dropWhile isAlphabetic = rest := by
  rw [List.takeWhile_append_of_pos hpart, List.dropWhile_append_of_pos hpart]
  cases rest with
  | nil => simp
  | cons d rest => simp [hend d (by simp)]

/-- A text that begins with a word begins with no mark. -/
theorem IsWord.append_ne {word after more : List Char} {c : Char} (hword : IsWord word) (hmark : isMark c = true) :
    word ++ after ≠ c :: more := by
  cases word with
  | nil => exact absurd rfl hword.1
  | cons d word =>
    rintro heq
    obtain rfl : d = c := (List.cons.inj heq).1
    exact not_isWord_of_isMark hmark hword

/-! ## Parts found by trial -/

namespace Descent

/-- A way to read parts of a kind, each spelt in its own way: it finds the next part of a text if this is of the
    kind, and reads it whole. -/
structure Reads {α : Type} (read : (cs : List Char) → Option (Piece α cs)) (kind : α → Prop)
    (spell : α → Token) : Prop where
  found : ∀ {cs rest : List Char} {part : Token} {p : Piece α cs}, cs = part ++ rest → Lexical part →
    EndsBefore part rest → read cs = some p → kind p.value ∧ spell p.value = part ∧ p.rest = rest
  missing : ∀ {cs rest : List Char} {part : Token}, cs = part ++ rest → Lexical part →
    EndsBefore part rest → read cs = none → ∀ a, kind a → spell a ≠ part
  nothing : read [] = none

/-- **Words are read whole.** -/
theorem reads_word : Reads wordAt IsWord id := by
  refine ⟨?_, ?_, rfl⟩
  · rintro cs rest part p rfl hpart hend h
    rcases hpart.isWord_or_isMark with hword | ⟨c, more, rfl, hmark⟩
    · cases part with
      | nil => exact absurd rfl hword.1
      | cons c more =>
        have hmore : ∀ d ∈ more, isAlphabetic d = true := fun d hd => hword.2 d (by simp [hd])
        obtain ⟨htake, hdrop⟩ := takeWhile_letters hmore (hend.1 hword)
        simp only [List.cons_append, wordAt, hword.2 c (by simp), if_true, Option.some.injEq] at h
        subst h
        exact ⟨by simpa [htake] using hword, by simp [htake], hdrop⟩
    · simp [wordAt, (isMark_iff.mp hmark).1] at h
  · rintro cs rest part rfl hpart hend h word hword rfl
    cases word with
    | nil => exact hword.1 rfl
    | cons c more => simp [wordAt, hword.2 c (by simp)] at h

/-- **A character of a class is read**, if the class has only marks that begin no glyph of two. -/
theorem reads_character {ofClass : List Char}
    (hclass : ∀ c ∈ ofClass, isMark c = true ∧ ∀ d, isDoubleGlyph c d = false) :
    Reads (characterAt ofClass) (· ∈ ofClass) (fun c => [c]) := by
  refine ⟨?_, ?_, rfl⟩
  · rintro cs rest part p rfl hpart hend h
    cases hpart with
    | word hword =>
      cases part with
      | nil => exact absurd rfl hword.1
      | cons c more =>
        have hc : c ∉ ofClass := by
          intro hmem
          exact absurd hword (not_isWord_of_isMark (hclass c hmem).1)
        simp [characterAt, hc] at h
    | @double c d hdouble =>
      have hc : c ∉ ofClass := by
        intro hmem
        rw [(hclass c hmem).2 d] at hdouble
        exact absurd hdouble (by simp)
      simp [characterAt, hc] at h
    | @single c hmark =>
      by_cases hc : c ∈ ofClass
      · simp only [List.cons_append, List.nil_append, characterAt, hc, if_true, Option.some.injEq] at h
        subst h
        exact ⟨hc, rfl, rfl⟩
      · simp [characterAt, hc] at h
  · rintro cs rest part rfl hpart hend h c hc rfl
    simp [characterAt, hc] at h

/-- A part begins the text that it is in front of. -/
theorem beginsWith_append {part : Token} {rest : List Char} (hpart : Lexical part) (hend : EndsBefore part rest) :
    BeginsWith part (part ++ rest) := by
  obtain ⟨c, more, hcons, -⟩ := hpart.exists_head
  refine ⟨by simp [hcons], List.prefix_append part rest, ?_⟩
  rintro ⟨hlast, hnext⟩
  rw [List.drop_left] at hnext
  -- a letter at the end makes the part a word, and behind a word no letter follows
  have hword : IsWord part := by
    cases hpart with
    | word hword => exact hword
    | double hdouble =>
      rw [← Bool.not_eq_false] at hlast
      exact absurd (isMark_iff.mp (isMark_of_isDoubleGlyph hdouble).2).1 hlast
    | single hmark =>
      rw [← Bool.not_eq_false] at hlast
      exact absurd (isMark_iff.mp hmark).1 hlast
  cases rest with
  | nil => simp at hnext
  | cons d rest =>
    rw [← Bool.not_eq_false] at hnext
    exact hnext (hend.1 hword d rfl)

/-- A glyph that a text begins with is its first part, or the first half of it. -/
theorem BeginsWith.eq_or_half {glyph part : Token} {rest : List Char} (hglyph : Lexical glyph)
    (hpart : Lexical part) (hend : EndsBefore part rest) (h : BeginsWith glyph (part ++ rest)) :
    glyph = part ∨ ∃ c d, glyph = [c] ∧ part = [c, d] ∧ isDoubleGlyph c d = true := by
  obtain ⟨hne, ⟨after, hafter⟩, hletters⟩ := h
  rcases hglyph.isWord_or_isMark with hword | ⟨c, more, rfl, hmark⟩
  · -- both are all the letters that the text begins with
    have hafterword : EndsWord after := by
      intro d hd
      rw [← hafter, List.drop_left] at hletters
      have hlast := hword.2 _ (List.getLast_mem hne)
      rw [← Bool.not_eq_true]
      intro hd'
      refine hletters ⟨?_, ?_⟩
      · rwa [List.getLast?_eq_some_getLast hne]
      · rwa [Option.mem_def.mp hd]
    rcases hpart.isWord_or_isMark with hpartword | ⟨d, more, rfl, hmark⟩
    · have htake := (takeWhile_letters hword.2 hafterword).1
      rw [hafter, (takeWhile_letters hpartword.2 (hend.1 hpartword)).1] at htake
      exact .inl htake.symm
    · exact absurd hafter (hword.append_ne hmark)
  · rcases hpart.isWord_or_isMark with hpartword | ⟨d, rest', rfl, hmark'⟩
    · exact absurd hafter.symm (hpartword.append_ne hmark)
    · obtain ⟨rfl, hmore⟩ := List.cons.inj hafter
      cases hglyph with
      | word hword => exact absurd hword (not_isWord_of_isMark hmark)
      | @double _ d hdouble =>
        cases hpart with
        | word hword => exact absurd hword (not_isWord_of_isMark hmark)
        | double => exact .inl (by rw [(List.cons.inj hmore).1])
        | single =>
          -- the glyph would prolong the part
          obtain rfl : d :: after = rest := hmore
          rw [hend.2 c rfl d rfl] at hdouble
          exact absurd hdouble (by simp)
      | single =>
        cases hpart with
        | word hword => exact absurd hword (not_isWord_of_isMark hmark)
        | double hdouble => exact .inr ⟨_, _, rfl, rfl, hdouble⟩
        | single => exact .inl rfl

/-- **A glyph of a list is read**, if a longer glyph stands in the list before its own beginning, and every glyph
    of two characters is in the list whose first half is. -/
theorem reads_glyph {glyphs : List String} (hlexical : ∀ g ∈ glyphs, Lexical g.toList)
    (hlonger : glyphs.Pairwise fun g g' => ¬ g.toList <+: g'.toList)
    (hhalves : ∀ c d, isDoubleGlyph c d = true →
      ∀ g ∈ glyphs, g.toList = [c] → ∃ g' ∈ glyphs, g'.toList = [c, d]) :
    Reads (glyphAt glyphs) (· ∈ glyphs) String.toList := by
  refine ⟨?_, ?_, ?_⟩
  · rintro cs rest part p rfl hpart hend h
    unfold glyphAt at h
    split at h
    · rename_i g hfind
      obtain rfl := Option.some.inj h
      have hmem := List.mem_of_find?_eq_some hfind
      obtain ⟨hbegins, before, behind, hsplit, hbefore⟩ := List.find?_eq_some_iff_append.mp hfind
      rw [decide_eq_true_eq] at hbegins
      rcases hbegins.eq_or_half (hlexical g hmem) hpart hend with heq | ⟨c, d, hg, rfl, hdouble⟩
      · exact ⟨hmem, heq, by simp [heq]⟩
      · -- the whole glyph is in the list, and it does not stand behind its first half
        obtain ⟨g', hmem', hg'⟩ := hhalves c d hdouble g hmem hg
        have hbegins' : BeginsWith g'.toList ([c, d] ++ rest) := by
          rw [hg']
          exact beginsWith_append hpart hend
        have hhalf : g.toList <+: g'.toList := by
          rw [hg, hg']
          exact List.prefix_append [c] [d]
        rw [hsplit] at hmem' hlonger
        rcases List.mem_append.mp hmem' with hmem' | hmem'
        · exact absurd hbegins' (by simpa using hbefore g' hmem')
        · rcases List.mem_cons.mp hmem' with rfl | hmem'
          · simp [hg] at hg'
          · have hpair := (List.pairwise_cons.mp (List.pairwise_append.mp hlonger).2.1).1
            exact absurd hhalf (hpair g' hmem')
    · simp at h
  · rintro cs rest part rfl hpart hend h g hmem rfl
    unfold glyphAt at h
    split at h
    · simp at h
    · rename_i hfind
      have hnone := List.find?_eq_none.mp hfind g hmem
      exact hnone (decide_eq_true (beginsWith_append hpart hend))
  · unfold glyphAt
    split
    · rename_i g hfind
      have hbegins : BeginsWith g.toList [] := by simpa using List.find?_some hfind
      exact absurd (List.prefix_nil.mp hbegins.2.1) hbegins.1
    · rfl

/-- **Glyphs of a connective are read.** -/
theorem reads_connective (c : Connective) : Reads (glyphAt c.glyphs) (· ∈ c.glyphs) String.toList := by
  refine reads_glyph (fun g hg => Reader.lexical_of_mem_glyphs hg) (by cases c <;> decide) ?_
  intro x y hdouble
  apply isDoubleGlyph_cases hdouble <;> cases c <;> decide

/-- **Spellings of negation are read.** -/
theorem reads_negation : Reads (glyphAt negationGlyphs) (· ∈ negationGlyphs) String.toList := by
  refine reads_glyph (fun g hg => Reader.lexical_of_mem_negationGlyphs hg) (by decide) ?_
  intro x y hdouble
  apply isDoubleGlyph_cases hdouble <;> decide

theorem reads_opening : Reads (characterAt openingBrackets) (· ∈ openingBrackets) fun c => [c] := by
  refine reads_character fun c hc => ⟨isMark_of_mem_openingBrackets c hc, fun d => ?_⟩
  simp only [openingBrackets, List.mem_cons, List.not_mem_nil, or_false] at hc
  rcases hc with rfl | rfl | rfl <;> simp [isDoubleGlyph]

theorem reads_closing : Reads (characterAt closingBrackets) (· ∈ closingBrackets) fun c => [c] := by
  refine reads_character fun c hc => ⟨isMark_of_mem_closingBrackets c hc, fun d => ?_⟩
  simp only [closingBrackets, List.mem_cons, List.not_mem_nil, or_false] at hc
  rcases hc with rfl | rfl | rfl <;> simp [isDoubleGlyph]

/-! ## The record -/

namespace Record

variable {record : Record} {p q : Nat} {names : List String} {name : String}

@[simp] theorem reach_self (p : Nat) (names : List String) : (⟨p, names⟩ : Record).reach p = ⟨p, names⟩ := by
  simp [reach]

/-- A new record is empty wherever it is. -/
theorem reach_empty (p : Nat) : ({} : Record).reach p = ⟨p, []⟩ := by
  cases p <;> rfl

/-- Where the record has some names, one more is added. -/
theorem note_reached (h : record.reach p = ⟨p, names⟩) (hname : name ∉ names) :
    record.note p name = ⟨p, names ++ [name]⟩ := by
  simp [note, h, hname]

/-- Further on, all names are void. -/
theorem reach_later (h : record.reach p = ⟨p, names⟩) (hpq : p < q) : record.reach q = ⟨q, []⟩ := by
  have hfurthest : record.furthest ≤ p := by
    simp only [reach] at h
    split at h
    · omega
    · rw [h]
  rw [reach, if_pos (Nat.lt_of_le_of_lt hfurthest hpq)]

/-- Before the furthest place, nothing is noted. -/
theorem note_before (h : p < record.furthest) (name : String) : record.note p name = record := by
  have hreach : record.reach p = record := if_neg (Nat.lt_asymm h)
  simp [note, hreach, Nat.ne_of_lt h]

end Record

/-! ## Places -/

@[simp] theorem bytes_cons (c : Char) (cs : List Char) : bytes (c :: cs) = c.utf8Size + bytes cs := rfl

@[simp] theorem bytes_append (cs ds : List Char) : bytes (cs ++ ds) = bytes cs + bytes ds := by
  induction cs with
  | nil => simp [bytes]
  | cons c cs ih => rw [List.cons_append, bytes_cons, bytes_cons, ih, Nat.add_assoc]

theorem bytes_le_of_suffix {cs ds : List Char} (h : cs <:+ ds) : bytes cs ≤ bytes ds := by
  obtain ⟨before, rfl⟩ := h
  simp

/-- The part behind another one is further on. -/
theorem place_lt {source cs rest : List Char} {part : Token} (hcs : cs <:+ source) (h : NextPart cs part rest) :
    place (bytes source) cs < place (bytes source) rest := by
  obtain ⟨c, more, rfl, -⟩ := h.lexical.exists_head
  have hsource := bytes_le_of_suffix ((afterBlanks_suffix cs).trans hcs)
  have hrest := bytes_le_of_suffix (afterBlanks_suffix rest)
  have hc := c.utf8Size_pos
  rw [place, place]
  rw [h.text, List.cons_append, bytes_cons, bytes_append] at *
  omega

/-- As many bytes as a text has hold its characters, whatever stands behind them. -/
theorem charactersWithin_append (cs rest : List Char) : charactersWithin (bytes cs) (cs ++ rest) = cs.length := by
  induction cs with
  | nil =>
    cases rest with
    | nil => rfl
    | cons c rest =>
      have hc : ¬ c.utf8Size ≤ 0 := Nat.not_le.mpr c.utf8Size_pos
      simp [charactersWithin, bytes, hc]
  | cons c cs ih => simp [charactersWithin, ih]

/-- A place as a fault has it: the characters in front of the part. -/
theorem fault_eq {source cs : List Char} (hcs : cs <:+ source) (names : List String) :
    (⟨place (bytes source) cs, names⟩ : Record).fault source
      = ⟨source.length - (afterBlanks cs).length, names⟩ := by
  obtain ⟨before, hsource⟩ := (afterBlanks_suffix cs).trans hcs
  rw [Record.fault, place, ← hsource, bytes_append, Nat.add_sub_cancel, charactersWithin_append,
    List.length_append, Nat.add_sub_cancel]

/-! ## One trial -/

section

variable {α : Type} {read : (cs : List Char) → Option (Piece α cs)} {kind : α → Prop} {spell : α → Token}
  {size : Nat} {name : String} {cs : List Char} {record record' : Record}

/-- **What is found is the next part**, and nothing is noted. -/
theorem token_found (hread : Reads read kind spell) {p : Piece α cs}
    (h : token size name read cs record = (some p, record')) :
    record' = record ∧ kind p.value ∧ NextPart cs (spell p.value) p.rest := by
  unfold token at h
  split at h
  · rename_i q hq
    obtain ⟨rfl, rfl⟩ := by simpa using h
    rcases nextPart_or_blank cs with ⟨part, rest, hnext⟩ | hblank
    · obtain ⟨hkind, hspell, hrest⟩ := hread.found hnext.text hnext.lexical hnext.ends hq
      exact ⟨rfl, hkind, by rwa [hspell, hrest]⟩
    · have hnone : ∀ text, text = [] → read text = none := by
        rintro _ rfl
        exact hread.nothing
      rw [hnone _ hblank] at hq
      exact absurd hq (by simp)
  · simp at h

/-- **What is missing is not the next part**, and this is noted at its place. -/
theorem token_missing (hread : Reads read kind spell) (h : token size name read cs record = (none, record')) :
    record' = record.note (place size cs) name ∧ ∀ a rest, kind a → ¬ NextPart cs (spell a) rest := by
  unfold token at h
  split at h
  · simp at h
  · rename_i hq
    obtain rfl := (Prod.mk.inj h).2
    exact ⟨rfl, fun a rest ha hnext => hread.missing hnext.text hnext.lexical hnext.ends hq a ha rfl⟩

end

end Descent

end Sentential
