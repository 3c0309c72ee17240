import Sentential.Proofs.Faults
import Sentential.Proofs.Parts

/-!
# `Sentential.Proofs.Descent` — reading by trial is reading with a stack

`Sentence.descend` and `Sentence.parse` give the same tree and the same fault for every text
(`Sentence.descend_eq_parse`). In particular the record of the furthest failure, which is filled and made void
while the grammar is tried, holds in the end what the reader with a stack expects where it stops.

What the grammar is tried on has one of two outcomes (`Outcome`), and the reader tells which.

* **Complete.** A well-formed tree is read, no connective of its level follows, and the names of these
  connectives are what the record has behind it (`Complete`). The reader reads the same parts, and is at the
  moment after the tree (`Complete.verdict_eq`).
* **Failed.** The record is final: it already holds the fault of the whole text. All that follows is before its
  place. A tree may still be read, but then a connective has been given back and follows it (`GivenBack`); it is
  found by no trial above, so that nothing comes of it.

Each function of the grammar preserves this, which is proved along the recursion: on the length of the text and
below that on the level.

## Contents
* `Reader.verdict` — what comes of a text from a moment on
* `Cut`, `Complete`, `GivenBack`, `Outcome` — what an operand may come to
* `token_before`, `symbol_before`, `group_before`, `chain_before` — what is tried after a failure fails, and is not
  noted
* `operand_none_outcome`, `group_outcome`, `symbol_outcome`, `chain_outcome`, `operand_some_outcome` — one lemma
  for each rule of the grammar
* `Sentence.descend_eq_parse` — the two readings agree
-/

namespace Sentential

open Text Descent

/-! ## What comes of a text -/

namespace Reader

/-- What is read, or the fault, from a moment on, when the text is the end of one of so many characters. -/
def verdict (length : Nat) (r : Reader) (cs : List Char) : Except SyntaxError Sentence :=
  match r.run (length - cs.length) (scan cs).lexemes with
  | .error fault => .error fault
  | .ok r =>
    match r.finish? with
    | some t => .ok t
    | none => .error ⟨length, r.expected⟩

theorem parse_eq_verdict (source : String) :
    Sentence.parse source = verdict source.toList.length start source.toList := by
  rw [verdict, Nat.sub_self]
  rfl

variable {length : Nat} {r r' : Reader} {cs rest : List Char} {part : Token}

/-- A move on the next part. -/
theorem verdict_next (hlength : cs.length ≤ length) (h : NextPart cs part rest) (hmove : Move r part r') :
    verdict length r cs = verdict length r' rest := by
  have hposition : length - cs.length + (cs.takeWhile isBlank).length + part.length = length - rest.length := by
    have := h.length_eq
    omega
  simp only [verdict, h.scan_eq, run, hmove.step, hposition]

/-- No move on the next part, and no end. -/
theorem verdict_stuck (hlength : cs.length ≤ length) (h : ∀ part rest r', NextPart cs part rest → ¬ Move r part r')
    (hend : afterBlanks cs = [] → r.finish? = none) :
    verdict length r cs = .error ⟨length - (afterBlanks cs).length, r.expected⟩ := by
  rcases nextPart_or_blank cs with ⟨part, rest, hnext⟩ | hblank
  · have hstep : r.step part = none := by
      cases hstep : r.step part with
      | none => rfl
      | some r' => exact absurd (step_eq_some_iff.mp hstep) (h part rest r' hnext)
    have hposition : length - cs.length + (cs.takeWhile isBlank).length = length - (afterBlanks cs).length := by
      have := hnext.length_eq
      rw [hnext.text, List.length_append]
      omega
    simp only [verdict, hnext.scan_eq, run, hstep, hposition]
  · simp [verdict, lexemes_scan_of_blank hblank, run, hend hblank, hblank]

/-- What a moment after a sentence expects depends on what was open before the sentence. -/
theorem After.expected_eq {stack : List Frame} {t : Sentence} (h : After stack t r) :
    r.expected = Connective.all.map Connective.name ++
      [if stack.any Frame.isGroup then "closing bracket" else "end of input"] := by
  obtain ⟨stack', last, rfl, hcollapse⟩ := h
  have hcount := congrArg (fun p => p.1.countP Frame.isGroup) (hcollapse (fun _ => true) fun _ _ => rfl)
  simp only [countP_collapse, countP_closeNegations] at hcount
  have hany : stack'.any Frame.isGroup = stack.any Frame.isGroup := by
    rw [Bool.eq_iff_iff, any_isGroup_iff, any_isGroup_iff, hcount]
  rw [expected, hany]

end Reader

namespace Descent

open Reader

/-! ## Outcomes -/

/-- The text begins with the parts, each the next one, and the rest is behind them. -/
inductive Cut : List Char → List Token → List Char → Prop where
  | nil {cs : List Char} : Cut cs [] cs
  | cons {cs mid rest : List Char} {part : Token} {parts : List Token} (h : NextPart cs part mid)
      (hrest : Cut mid parts rest) : Cut cs (part :: parts) rest

namespace Cut

variable {cs mid rest : List Char} {parts more : List Token}

theorem append (h : Cut cs parts mid) (hmore : Cut mid more rest) : Cut cs (parts ++ more) rest := by
  induction h with
  | nil => exact hmore
  | cons hnext _ ih => exact .cons hnext (ih hmore)

theorem suffix (h : Cut cs parts rest) : rest <:+ cs := by
  induction h with
  | nil => exact List.suffix_refl _
  | cons hnext _ ih => exact ih.trans hnext.suffix

theorem place_le {source : List Char} (hcs : cs <:+ source) (h : Cut cs parts rest) :
    place (bytes source) cs ≤ place (bytes source) rest := by
  induction h with
  | nil => exact Nat.le_refl _
  | cons hnext _ ih => exact Nat.le_trans (Nat.le_of_lt (place_lt hcs hnext)) (ih (hnext.suffix.trans hcs))

/-- The reader moves over the parts. -/
theorem verdict_eq {length : Nat} {r r' : Reader} (hlength : cs.length ≤ length) (h : Cut cs parts rest)
    (hsteps : r.steps parts = some r') : verdict length r cs = verdict length r' rest := by
  induction h generalizing r with
  | nil =>
    obtain rfl := Option.some.inj hsteps
    rfl
  | cons hnext _ ih =>
    simp only [steps, Option.bind_eq_some_iff] at hsteps
    obtain ⟨r₁, hstep, hsteps⟩ := hsteps
    rw [verdict_next hlength hnext (step_eq_some_iff.mp hstep)]
    exact ih (Nat.le_trans hnext.suffix.length_le hlength) hsteps

end Cut

/-- The names of a connective and the tighter ones, tightest first. -/
def namesUpTo (loosest : Option Connective) : List String :=
  (Connective.all.take (level loosest)).map Connective.name

theorem namesUpTo_some (c : Connective) : namesUpTo (some c) = namesUpTo (tighter? c) ++ [c.name] := by
  cases c <;> rfl

theorem name_not_mem_namesUpTo (c : Connective) : c.name ∉ namesUpTo (tighter? c) := by
  cases c <;> decide

/-- A connective of the level, or a tighter one, is the next part. -/
def Follows (loosest : Option Connective) (c : Connective) (g : String) (cs rest : List Char) : Prop :=
  c.looseness < level loosest ∧ g ∈ c.glyphs ∧ NextPart cs g.toList rest

section

variable (source : List Char)

/-- A whole operand of a level is read: nothing of the level follows, and the record has noted that. -/
structure Complete (loosest : Option Connective) (cs : List Char) (p : Piece Sentence cs) (record : Record) :
    Prop where
  wellFormed : p.value.WellFormed
  level_le : p.value.level ≤ level loosest
  cut : Cut cs p.value.tokens p.rest
  reached : record.reach (place (bytes source) p.rest) = ⟨place (bytes source) p.rest, namesUpTo loosest⟩
  ends : ∀ c g rest, ¬ Follows loosest c g p.rest rest

/-- A connective is the next part, but its operand has failed, so that nothing is noted here any more. -/
def GivenBack (loosest : Option Connective) (cs : List Char) (record : Record) : Prop :=
  place (bytes source) cs < record.furthest ∧ ∃ c g rest, Follows loosest c g cs rest

/-- What comes of an operand of a level. If it fails, the record has the fault of the text. -/
inductive Outcome (loosest : Option Connective) (cs : List Char) : Option (Piece Sentence cs) × Record → Prop where
  | complete {p : Piece Sentence cs} {record : Record} (h : Complete source loosest cs p record) :
      Outcome loosest cs (some p, record)
  | failed {result : Option (Piece Sentence cs)} {record : Record}
      (hverdict : ∀ stack, Admits (level loosest) stack →
        verdict source.length (Reader.operand stack) cs = .error (record.fault source))
      (hplace : place (bytes source) cs ≤ record.furthest)
      (hrest : ∀ p ∈ result, GivenBack source loosest p.rest record) : Outcome loosest cs (result, record)

end

variable {source cs : List Char} {loosest : Option Connective}

/-- The reader reads what is complete, wherever it is admitted. -/
theorem Complete.verdict_eq {p : Piece Sentence cs} {record : Record} (h : Complete source loosest cs p record)
    (hcs : cs <:+ source) {stack : List Frame} (hstack : Admits (level loosest) stack) :
    ∃ r, After stack p.value r ∧
      verdict source.length (Reader.operand stack) cs = verdict source.length r p.rest := by
  obtain ⟨r, hsteps, hafter⟩ := steps_tokens h.wellFormed stack (hstack.mono h.level_le)
  exact ⟨r, hafter, h.cut.verdict_eq hcs.length_le hsteps⟩

/-- No operand without connectives has been given back. -/
theorem not_givenBack_none {record : Record} : ¬ GivenBack source none cs record := by
  rintro ⟨-, c, g, rest, hlevel, -⟩
  exact absurd hlevel (Nat.not_lt_zero _)

/-! ## Trials before the furthest place -/

/-- A trial that fails before the furthest place changes nothing. -/
theorem token_before {α : Type} {read : (cs : List Char) → Option (Piece α cs)} {kind : α → Prop}
    {spell : α → Token} (hread : Reads read kind spell) {size : Nat} {name : String} {record : Record}
    (h : ∀ a rest, kind a → ¬ NextPart cs (spell a) rest) (hplace : place size cs < record.furthest) :
    token size name read cs record = (none, record) := by
  obtain ⟨result, record', htoken⟩ : ∃ result record', token size name read cs record = (result, record') :=
    ⟨_, _, rfl⟩
  cases result with
  | some p =>
    obtain ⟨-, hkind, hnext⟩ := token_found hread htoken
    exact absurd hnext (h p.value p.rest hkind)
  | none =>
    obtain ⟨rfl, -⟩ := token_missing hread htoken
    rw [htoken, record.note_before hplace]

/-- Where a part that is no word is the next, a symbol is looked for in vain. -/
theorem symbol_before {part : Token} {rest : List Char} {record : Record} (hnext : NextPart cs part rest)
    (hpart : ¬ IsWord part) (hplace : place (bytes source) cs < record.furthest) :
    Descent.symbol (bytes source) cs record = (none, record) := by
  have hword : ∀ word rest', IsWord word → ¬ NextPart cs (id word) rest' := by
    rintro word rest' hword hnext'
    exact hpart ((hnext.unique hnext').1 ▸ hword)
  have htoken : token (bytes source) "identifier" wordAt cs record = (none, record) :=
    token_before reads_word hword hplace
  simp only [Descent.symbol, htoken]

/-- Where a negation is the next part, a group is looked for in vain. -/
theorem group_before {g : String} {rest : List Char} {record : Record} (hnext : NextPart cs g.toList rest)
    (hg : g ∈ negationGlyphs) (hplace : place (bytes source) cs < record.furthest) :
    group (bytes source) cs record = (none, record) := by
  have hopening : ∀ o rest', o ∈ openingBrackets → ¬ NextPart cs [o] rest' := by
    intro o rest' ho hnext'
    have hglyph : g = String.ofList [o] := by rw [← (hnext.unique hnext').1, String.ofList_toList]
    have hnone := opening_not_mem_negationGlyphs ho
    rw [← hglyph] at hnone
    simp [hg] at hnone
  have htoken : token (bytes source) "opening bracket" (characterAt openingBrackets) cs record = (none, record) :=
    token_before reads_opening hopening hplace
  rw [group, htoken]
  exact symbol_before hnext (not_isWord_of_mem_negationGlyphs hg) hplace

/-! ## A negation, a group or a symbol -/

/-- **Behind a negation and a group, a symbol is tried last.** If it fails, nothing that an operand begins with is
    there, and the record has noted that. -/
theorem symbol_outcome (hcs : cs <:+ source)
    (hnegation : ∀ g rest, g ∈ negationGlyphs → ¬ NextPart cs g.toList rest)
    (hopening : ∀ o rest, o ∈ openingBrackets → ¬ NextPart cs [o] rest) :
    Outcome source none cs
      (Descent.symbol (bytes source) cs ⟨place (bytes source) cs, ["negation", "opening bracket"]⟩) := by
  unfold Descent.symbol
  split
  · rename_i w record htoken
    obtain ⟨rfl, hword, hnext⟩ := token_found reads_word htoken
    refine .complete ⟨?_, Nat.le_refl _, ?_, ?_, ?_⟩
    · simpa [Sentence.WellFormed, Symbol.Writable] using hword
    · simpa [Sentence.tokens] using Cut.cons hnext .nil
    · exact Record.reach_later (Record.reach_self _ _) (place_lt hcs hnext)
    · exact fun c g rest h => absurd h.1 (Nat.not_lt_zero _)
  · rename_i record htoken
    obtain ⟨rfl, hword⟩ := token_missing reads_word htoken
    rw [Record.note_reached (Record.reach_self _ _) (by decide)]
    refine .failed (fun stack _ => ?_) (Nat.le_refl _) (by simp)
    rw [fault_eq hcs, verdict_stuck hcs.length_le ?_ fun _ => rfl]
    · rfl
    · intro part rest r' hnext hmove
      cases hmove with
      | negation hg => exact hnegation _ rest hg hnext
      | opening ho => exact hopening _ rest ho hnext
      | symbol hs => exact hword _ rest hs hnext

/-- As long as nothing is noted at a text, an operand read there has one of the outcomes. -/
def Tracked (source : List Char) (loosest : Option Connective) (cs : List Char) : Prop :=
  ∀ record : Record, record.reach (place (bytes source) cs) = ⟨place (bytes source) cs, []⟩ →
    Outcome source loosest cs (Descent.operand (bytes source) loosest cs record)

/-- A glyph of a connective is no closing bracket. -/
theorem glyph_ne_closing {c : Connective} {g : String} {closer : Char} (hg : g ∈ c.glyphs)
    (hcloser : closer ∈ closingBrackets) : g.toList ≠ [closer] := by
  intro heq
  have hglyph : g = String.ofList [closer] := by rw [← heq, String.ofList_toList]
  have hnone := ofGlyph?_closing hcloser
  rw [← hglyph, Connective.ofGlyph?_eq_some_iff.mpr hg] at hnone
  exact absurd hnone (by simp)

/-- Behind a whole sentence only a closing bracket can be read. -/
theorem Complete.exists_closing {p : Piece Sentence cs} {record : Record} {stack : List Frame} {last : Sentence}
    {part : Token} {rest : List Char} {r : Reader} (h : Complete source (some .biconditional) cs p record)
    (hnext : NextPart p.rest part rest) (hmove : Move (operator stack last) part r) :
    ∃ c ∈ closingBrackets, part = [c] ∧
      ∃ o stack' inner, collapse (fun _ => true) stack last = (.group o :: stack', inner) := by
  cases hmove with
  | @connective _ _ _ _ c g hg hcollapse =>
    have hlevel : c.looseness < level (some .biconditional) := by cases c <;> decide
    exact absurd ⟨hlevel, hg, hnext⟩ (h.ends c g rest)
  | closing hc hcollapse => exact ⟨_, hc, rfl, _, _, _, hcollapse⟩

/-- A group that is not closed behind a whole sentence: a connective or a closing bracket is missing. -/
theorem Complete.verdict_unclosed {p : Piece Sentence cs} {record : Record}
    (h : Complete source (some .biconditional) cs p record) (hcs : cs <:+ source)
    (hmissing : ∀ c rest, c ∈ closingBrackets → ¬ NextPart p.rest [c] rest) (o : Char) (stack : List Frame) :
    verdict source.length (Reader.operand (.group o :: stack)) cs
      = .error (Record.fault ⟨place (bytes source) p.rest,
          namesUpTo (some .biconditional) ++ ["closing bracket"]⟩ source) := by
  have hadmits : Admits (level (some .biconditional)) (.group o :: stack) := trivial
  obtain ⟨r, hafter, hverdict⟩ := h.verdict_eq hcs hadmits
  have hexpected := hafter.expected_eq
  obtain ⟨stack', last, rfl, hcollapse⟩ := hafter.collapse_all (fun _ => rfl) (fun _ => rfl)
  have hrest := h.cut.suffix.trans hcs
  rw [hverdict, fault_eq hrest, verdict_stuck hrest.length_le, hexpected]
  · rfl
  · intro part rest r' hnext hmove
    obtain ⟨c, hc, rfl, -⟩ := h.exists_closing hnext hmove
    exact hmissing c rest hc hnext
  · intro _
    simp [finish?, hcollapse]

/-- A whole sentence that nothing is open before: it is read if the text ends, and otherwise a connective or the
    end is missing. -/
theorem Complete.verdict_top {p : Piece Sentence cs} {record : Record}
    (h : Complete source (some .biconditional) cs p record) (hcs : cs <:+ source) :
    verdict source.length start cs
      = if (afterBlanks p.rest).isEmpty then .ok p.value
        else .error (Record.fault ⟨place (bytes source) p.rest,
          namesUpTo (some .biconditional) ++ ["end of input"]⟩ source) := by
  have hadmits : Admits (level (some .biconditional)) [] := trivial
  obtain ⟨r, hafter, hverdict⟩ := h.verdict_eq hcs hadmits
  have hexpected := hafter.expected_eq
  obtain ⟨stack', last, rfl, hcollapse⟩ := hafter.collapse_all (fun _ => rfl) (fun _ => rfl)
  have hrest := h.cut.suffix.trans hcs
  rw [start, hverdict]
  split
  · rename_i hempty
    rw [List.isEmpty_iff] at hempty
    simp [verdict, lexemes_scan_of_blank hempty, run, finish?, hcollapse]
  · rename_i hempty
    rw [fault_eq hrest, verdict_stuck hrest.length_le, hexpected]
    · rfl
    · intro part rest r' hnext hmove
      obtain ⟨-, -, -, o, stack'', inner, hgroup⟩ := h.exists_closing hnext hmove
      rw [hcollapse] at hgroup
      exact absurd hgroup (by simp)
    · exact fun hblank => absurd (List.isEmpty_iff.mpr hblank) hempty

/-- **A group is tried before a symbol.** -/
theorem group_outcome (hcs : cs <:+ source)
    (hnegation : ∀ g rest, g ∈ negationGlyphs → ¬ NextPart cs g.toList rest)
    (ih : ∀ rest : List Char, rest <:+ source → rest.length < cs.length →
      Tracked source (some .biconditional) rest) :
    Outcome source none cs (group (bytes source) cs ⟨place (bytes source) cs, ["negation"]⟩) := by
  unfold group
  split
  · rename_i o record htoken
    obtain ⟨rfl, ho, hnext⟩ := token_found reads_opening htoken
    have hrest := hnext.suffix.trans hcs
    have hword : ¬ IsWord [o.value] := not_isWord_of_isMark (isMark_of_mem_openingBrackets _ ho)
    have hplace := place_lt hcs hnext
    have hopen : ∀ stack, verdict source.length (Reader.operand stack) cs
        = verdict source.length (Reader.operand (.group o.value :: stack)) o.rest :=
      fun stack => verdict_next hcs.length_le hnext (.opening ho)
    have houtcome := ih o.rest hrest o.shorter _ (Record.reach_later (Record.reach_self _ ["negation"]) hplace)
    split
    · rename_i t record hoperand
      rw [hoperand] at houtcome
      split
      · rename_i c record' hclosing
        obtain ⟨rfl, hc, hbehind⟩ := token_found reads_closing hclosing
        cases houtcome with
        | complete h =>
          refine .complete ⟨⟨ho, hc, h.wellFormed⟩, Nat.le_refl _, ?_, ?_, ?_⟩
          · exact .cons hnext (h.cut.append (.cons hbehind .nil))
          · exact Record.reach_later h.reached (place_lt (h.cut.suffix.trans hrest) hbehind)
          · exact fun c g rest h => absurd h.1 (Nat.not_lt_zero _)
        | failed _ _ hgiven =>
          obtain ⟨-, d, g, rest, -, hg, hglyph⟩ := hgiven t rfl
          exact absurd (hglyph.unique hbehind).1 (glyph_ne_closing hg hc)
      · rename_i record' hclosing
        obtain ⟨rfl, hmissing⟩ := token_missing reads_closing hclosing
        cases houtcome with
        | complete h =>
          -- the bracket is what is missing: the group is given up, and where it began nothing is noted
          have hbehind : place (bytes source) cs < place (bytes source) t.rest :=
            Nat.lt_of_lt_of_le hplace (h.cut.place_le hrest)
          rw [Record.note_reached h.reached (by decide), symbol_before hnext hword hbehind]
          refine .failed (fun stack _ => ?_) (Nat.le_of_lt hbehind) (by simp)
          exact (hopen stack).trans (h.verdict_unclosed hrest hmissing o.value stack)
        | failed hverdict hfar hgiven =>
          have hbefore := (hgiven t rfl).1
          have hfar' := Nat.lt_of_lt_of_le hplace hfar
          rw [Record.note_before hbefore, symbol_before hnext hword hfar']
          exact .failed (fun stack _ => (hopen stack).trans (hverdict _ trivial)) (Nat.le_of_lt hfar') (by simp)
    · rename_i record hoperand
      rw [hoperand] at houtcome
      cases houtcome with
      | failed hverdict hfar _ =>
        have hfar' := Nat.lt_of_lt_of_le hplace hfar
        rw [symbol_before hnext hword hfar']
        exact .failed (fun stack _ => (hopen stack).trans (hverdict _ trivial)) (Nat.le_of_lt hfar') (by simp)
  · rename_i record htoken
    obtain ⟨rfl, hopening⟩ := token_missing reads_opening htoken
    rw [Record.note_reached (Record.reach_self _ _) (by decide)]
    exact symbol_outcome hcs hnegation hopening

/-- **A negation is tried before a group.** -/
theorem operand_none_outcome (hcs : cs <:+ source)
    (ih : ∀ rest : List Char, rest <:+ source → rest.length < cs.length → ∀ loosest, Tracked source loosest rest) :
    Tracked source none cs := by
  intro record hrecord
  unfold Descent.operand
  split
  · rename_i g record' htoken
    obtain ⟨rfl, hg, hnext⟩ := token_found reads_negation htoken
    have hrest := hnext.suffix.trans hcs
    have hplace := place_lt hcs hnext
    have houtcome := ih g.rest hrest g.shorter none record' (Record.reach_later hrecord hplace)
    split
    · rename_i t record hoperand
      rw [hoperand] at houtcome
      cases houtcome with
      | complete h =>
        refine .complete ⟨⟨hg, Nat.le_zero.mp h.level_le, h.wellFormed⟩, Nat.le_refl _, ?_, h.reached, h.ends⟩
        exact .cons hnext h.cut
      | failed _ _ hgiven => exact absurd (hgiven t rfl) not_givenBack_none
    · rename_i record hoperand
      rw [hoperand] at houtcome
      cases houtcome with
      | failed hverdict hfar _ =>
        have hfar' := Nat.lt_of_lt_of_le hplace hfar
        rw [group_before hnext hg hfar']
        refine .failed (fun stack hstack => ?_) (Nat.le_of_lt hfar') (by simp)
        rw [verdict_next hcs.length_le hnext (.negation hg)]
        exact hverdict _ rfl
  · rename_i record' htoken
    obtain ⟨rfl, hnegation⟩ := token_missing reads_negation htoken
    rw [Record.note_reached hrecord (by simp)]
    exact group_outcome hcs hnegation fun rest hrest hshorter => ih rest hrest hshorter _

/-! ## Connectives -/

/-- No glyph is the next part for two connectives. -/
theorem eq_of_next {c d : Connective} {g g' : String} {rest rest' : List Char} (hg : g ∈ c.glyphs)
    (hnext : NextPart cs g.toList rest) (hg' : g' ∈ d.glyphs) (hnext' : NextPart cs g'.toList rest') : c = d := by
  have heq : g = g' := String.toList_injective (hnext.unique hnext').1
  have hc := Connective.ofGlyph?_eq_some_iff.mpr hg
  rw [heq, Connective.ofGlyph?_eq_some_iff.mpr hg'] at hc
  exact (Option.some.inj hc).symm

/-- No two connectives bind equally loosely. -/
theorem eq_of_looseness_eq {c d : Connective} (h : c.looseness = d.looseness) : c = d := by
  revert h
  cases c <;> cases d <;> decide

/-- A connective that is given back is found by no looser one. -/
theorem chain_before {c : Connective} {first : Piece Sentence cs} {record : Record}
    (h : GivenBack source (tighter? c) first.rest record) : chain (bytes source) c first record = (first, record) := by
  obtain ⟨hplace, d, g, rest, hlevel, hg, hnext⟩ := h
  rw [level_tighter?] at hlevel
  have hmissing : ∀ g' rest', g' ∈ c.glyphs → ¬ NextPart first.rest g'.toList rest' := by
    intro g' rest' hg' hnext'
    obtain rfl := eq_of_next hg hnext hg' hnext'
    exact Nat.lt_irrefl _ hlevel
  have htoken : token (bytes source) c.name (glyphAt c.glyphs) first.rest record = (none, record) :=
    token_before (reads_connective c) hmissing hplace
  rw [chain, htoken]

theorem GivenBack.mono {c : Connective} {record : Record} (h : GivenBack source (tighter? c) cs record) :
    GivenBack source (some c) cs record := by
  obtain ⟨hplace, d, g, rest, hlevel, hfollows⟩ := h
  rw [level_tighter?] at hlevel
  exact ⟨hplace, d, g, rest, Nat.lt_succ_of_lt hlevel, hfollows⟩

theorem level_tighter?_le (c : Connective) : level (tighter? c) ≤ c.looseness + 1 :=
  Nat.le_succ_of_le (Nat.le_of_eq (level_tighter? c))

/-- Where a connective is missing, what is complete without it is complete with it. -/
theorem Complete.loosen {c : Connective} {first : Piece Sentence cs} {record : Record}
    (h : Complete source (tighter? c) cs first record)
    (hmissing : ∀ g rest, g ∈ c.glyphs → ¬ NextPart first.rest g.toList rest) :
    Complete source (some c) cs first (record.note (place (bytes source) first.rest) c.name) := by
  rw [Record.note_reached h.reached (name_not_mem_namesUpTo c), ← namesUpTo_some]
  refine ⟨h.wellFormed, Nat.le_trans h.level_le (level_tighter?_le c), h.cut, Record.reach_self _ _, ?_⟩
  rintro d g rest ⟨hd, hg, hnext⟩
  rcases Nat.lt_succ_iff_lt_or_eq.mp hd with hd | hd
  · exact h.ends d g rest ⟨level_tighter? c ▸ hd, hg, hnext⟩
  · obtain rfl := eq_of_looseness_eq hd
    exact hmissing g rest hg hnext

/-- What a connective joins fails if the text behind its glyph fails inside what it opens. -/
theorem Complete.failed_behind {c : Connective} {first whole : Piece Sentence cs} {record record' : Record}
    {g : String} {rest : List Char} (h : Complete source (tighter? c) cs first record) (hcs : cs <:+ source)
    (hg : g ∈ c.glyphs) (hnext : NextPart first.rest g.toList rest)
    (hverdict : ∀ stack, verdict source.length (Reader.operand (.left first.value c g :: stack)) rest
      = .error (record'.fault source))
    (hfar : place (bytes source) rest ≤ record'.furthest) (hgiven : GivenBack source (some c) whole.rest record') :
    Outcome source (some c) cs (some whole, record') := by
  have hfirst := h.cut.suffix.trans hcs
  have hlevel : first.value.level ≤ c.looseness := level_tighter? c ▸ h.level_le
  have hplace : place (bytes source) cs < place (bytes source) rest :=
    Nat.lt_of_le_of_lt (h.cut.place_le hcs) (place_lt hfirst hnext)
  refine .failed (fun stack hstack => ?_) (Nat.le_of_lt (Nat.lt_of_lt_of_le hplace hfar)) (by simpa using hgiven)
  obtain ⟨r, hafter, heq⟩ := h.verdict_eq hcs (hstack.mono (level_tighter?_le c))
  rw [heq, verdict_next hfirst.length_le hnext (hafter.connective hg hlevel hstack), hverdict stack]

/-- **What a connective joins comes to what its operands come to.** -/
theorem chain_outcome (c : Connective) {length : Nat}
    (ih : ∀ rest : List Char, rest <:+ source → rest.length < length → Tracked source (tighter? c) rest)
    {first whole : Piece Sentence cs} {record record' : Record} (hcs : cs <:+ source)
    (hlength : first.rest.length < length) (h : Outcome source (tighter? c) cs (some first, record))
    (hchain : chain (bytes source) c first record = (whole, record')) :
    Outcome source (some c) cs (some whole, record') := by
  induction hn : first.rest.length using Nat.strongRecOn generalizing cs first whole record record' with
  | ind n ihn =>
  cases h with
  | failed hverdict hfar hgiven =>
    -- the connective that has been given back inside is not found here either
    have hbefore := hgiven first rfl
    rw [chain_before hbefore] at hchain
    obtain ⟨rfl, rfl⟩ := Prod.mk.inj hchain
    exact .failed (fun stack hstack => hverdict stack (hstack.mono (level_tighter?_le c))) hfar
      (by simpa using hbefore.mono)
  | complete h =>
    have hfirst := h.cut.suffix.trans hcs
    unfold chain at hchain
    split at hchain
    · rename_i g record₁ htoken
      obtain ⟨rfl, hg, hnext⟩ := token_found (reads_connective c) htoken
      have hrest := hnext.suffix.trans hfirst
      have hplace := place_lt hfirst hnext
      have houtcome := ih g.rest hrest (Nat.lt_trans g.shorter hlength) _ (Record.reach_later h.reached hplace)
      split at hchain
      · rename_i next record₂ hoperand
        rw [hoperand] at houtcome
        obtain ⟨rfl, rfl⟩ := Prod.mk.inj hchain
        have hshorter : next.rest.length < n := hn ▸ Nat.lt_trans next.shorter g.shorter
        have hmore := ihn _ hshorter hrest (Nat.lt_trans hshorter (hn ▸ hlength)) houtcome rfl rfl
        cases hmore with
        | complete hmore =>
          have hlevel : first.value.level < c.looseness + 1 := Nat.lt_succ_of_le (level_tighter? c ▸ h.level_le)
          refine .complete ⟨⟨hg, hlevel, hmore.level_le, h.wellFormed, hmore.wellFormed⟩, Nat.le_refl _, ?_,
            hmore.reached, hmore.ends⟩
          exact h.cut.append (.cons hnext hmore.cut)
        | failed hverdict hfar hgiven =>
          exact h.failed_behind hcs hg hnext (fun _ => hverdict _ (Nat.le_refl _)) hfar (hgiven _ rfl)
      · rename_i record₂ hoperand
        rw [hoperand] at houtcome
        obtain ⟨rfl, rfl⟩ := Prod.mk.inj hchain
        cases houtcome with
        | failed hverdict hfar _ =>
          -- the glyph is given back, and the record is further on
          refine h.failed_behind hcs hg hnext (fun _ => hverdict _ (level_tighter?_le c)) hfar ?_
          exact ⟨Nat.lt_of_lt_of_le hplace hfar, c, g.value, g.rest, Nat.lt_succ_self _, hg, hnext⟩
    · rename_i record₁ htoken
      obtain ⟨rfl, rfl⟩ := Prod.mk.inj hchain
      obtain ⟨rfl, hmissing⟩ := token_missing (reads_connective c) htoken
      exact .complete (h.loosen hmissing)

/-- **An operand of a connective's level begins with one of the tighter level.** -/
theorem operand_some_outcome {c : Connective} (hcs : cs <:+ source) (h : Tracked source (tighter? c) cs)
    (ih : ∀ rest : List Char, rest <:+ source → rest.length < cs.length → Tracked source (tighter? c) rest) :
    Tracked source (some c) cs := by
  intro record hrecord
  have houtcome := h record hrecord
  unfold Descent.operand
  split
  · rename_i first record' hoperand
    rw [hoperand] at houtcome
    exact chain_outcome c ih hcs first.shorter houtcome rfl
  · rename_i record' hoperand
    rw [hoperand] at houtcome
    cases houtcome with
    | failed hverdict hfar _ =>
      exact .failed (fun stack hstack => hverdict stack (hstack.mono (level_tighter?_le c))) hfar (by simp)

/-- **Every rule of the grammar has one of the outcomes**, at every level and in front of every rest of the text. -/
theorem tracked (loosest : Option Connective) (hcs : cs <:+ source) : Tracked source loosest cs := by
  induction hn : cs.length using Nat.strongRecOn generalizing cs loosest with
  | ind n ih =>
  have hshorter : ∀ rest : List Char, rest <:+ source → rest.length < cs.length →
      ∀ loosest, Tracked source loosest rest :=
    fun rest hrest hlt loosest => ih rest.length (hn ▸ hlt) loosest hrest rfl
  have hnext : ∀ c, Tracked source (tighter? c) cs → Tracked source (some c) cs :=
    fun c h => operand_some_outcome hcs h fun rest hrest hlt => hshorter rest hrest hlt _
  have hnone := operand_none_outcome hcs hshorter
  have hconjunction := hnext .conjunction hnone
  have hdisjunction := hnext .disjunction hconjunction
  have hconditional := hnext .conditional hdisjunction
  match loosest with
  | none => exact hnone
  | some .conjunction => exact hconjunction
  | some .disjunction => exact hdisjunction
  | some .conditional => exact hconditional
  | some .biconditional => exact hnext .biconditional hconditional

end Descent

/-! ## Texts -/

/-- **Reading by trial is reading with a stack.** The two give the same tree, or the same fault: where the record
    of the furthest failure ends is where the reader stops, and the names in it are what the reader expects. -/
theorem Sentence.descend_eq_parse (source : String) : Sentence.descend source = Sentence.parse source := by
  have houtcome := tracked (some .biconditional) (List.suffix_refl source.toList) {} (Record.reach_empty _)
  rw [Reader.parse_eq_verdict, descend]
  generalize Descent.operand (bytes source.toList) (some .biconditional) source.toList {} = result at houtcome
  cases houtcome with
  | @complete p record h =>
    rw [h.verdict_top (List.suffix_refl _), ← Record.note_reached h.reached (by decide)]
  | @failed result record hverdict hfar hgiven =>
    have hfault := hverdict [] trivial
    cases result with
    | none => exact hfault.symm
    | some p =>
      obtain ⟨hbefore, c, g, rest, -, -, hnext⟩ := hgiven p rfl
      have hrest : (afterBlanks p.rest).isEmpty = false := by
        obtain ⟨d, more, hcons, -⟩ := hnext.lexical.exists_head
        simp [hnext.text, hcons]
      simp only [hrest, Record.note_before hbefore]
      exact hfault.symm

end Sentential
