import Sentential.Proofs.Scanning

/-!
# `Sentential.Proofs.Moves` — what one part does to the reader

The reader has five moves: a negation, an opening bracket or a symbol where an operand must come; a
connective or a closing bracket where an operator may follow. `Move` lists them with their guards, and
`step_eq_some_iff` says that the reader makes these moves and no others. Everything that is proved about a
reader afterwards is a case analysis over `Move`; `Reader.step` is not opened again.

The parts of a text on which the reader moves do not run together (`tokens_scan_of_written`): after an `&`
an operand must come, and no operand starts with another half of a glyph.

## Contents
* `Reader.Move`, `step_eq_some_iff` — the moves
* `Reader.steps`, `run_eq_ok_iff` — many parts, positions left aside
* `Move.lexical`, `tokens_scan_of_written` — a writing of accepted parts is cut into them
-/

namespace Sentential

open Text

namespace Reader

/-! ## The moves -/

/-- A move of the reader on one part. -/
inductive Move : Reader → Token → Reader → Prop where
  | negation {stack : List Frame} {g : String} (hg : g ∈ negationGlyphs) :
      Move (operand stack) g.toList (operand (.negation g :: stack))
  | opening {stack : List Frame} {o : Char} (ho : o ∈ openingBrackets) :
      Move (operand stack) [o] (operand (.group o :: stack))
  | symbol {stack : List Frame} {s : Symbol} (hs : s.Writable) :
      Move (operand stack) s.name.toList (completed stack (.symbol s))
  | connective {stack stack' : List Frame} {last l : Sentence} {c : Connective} {g : String}
      (hg : g ∈ c.glyphs)
      (hcollapse : collapse (fun d => d.looseness < c.looseness) stack last = (stack', l)) :
      Move (operator stack last) g.toList (operand (.left l c g :: stack'))
  | closing {stack stack' : List Frame} {last inner : Sentence} {o c : Char} (hc : c ∈ closingBrackets)
      (hcollapse : collapse (fun _ => true) stack last = (.group o :: stack', inner)) :
      Move (operator stack last) [c] (completed stack' (.group o inner c))

/-- A word is no spelling of negation and no bracket. -/
theorem not_isWord_of_mem_negationGlyphs {g : String} (hg : g ∈ negationGlyphs) : ¬ IsWord g.toList := by
  simp only [negationGlyphs, List.mem_cons, List.not_mem_nil, or_false] at hg
  rcases hg with rfl | rfl | rfl <;> decide

theorem ofGlyph?_closing {c : Char} (hc : c ∈ closingBrackets) :
    Connective.ofGlyph? (String.ofList [c]) = none := by
  simp only [closingBrackets, List.mem_cons, List.not_mem_nil, or_false] at hc
  rcases hc with rfl | rfl | rfl <;> decide

theorem opening_not_mem_negationGlyphs {o : Char} (ho : o ∈ openingBrackets) :
    negationGlyphs.contains (String.ofList [o]) = false := by
  simp only [openingBrackets, List.mem_cons, List.not_mem_nil, or_false] at ho
  rcases ho with rfl | rfl | rfl <;> decide

/-- A step where an operand must come is one of three moves. -/
theorem move_of_step_operand {stack : List Frame} {part : Token} {r : Reader}
    (h : (operand stack).step part = some r) : Move (operand stack) part r := by
  simp only [step] at h
  -- a spelling of negation is looked for first, then a bracket, then a run of letters
  split at h
  · rename_i hg
    have hmem : String.ofList part ∈ negationGlyphs := by simpa using hg
    obtain rfl := Option.some.inj h
    have hmove : Move (operand stack) _ _ := .negation hmem
    simpa using hmove
  · cases part with
    | nil => simp at h
    | cons c rest =>
      simp only at h
      split at h
      · rename_i ho
        simp only [Bool.and_eq_true, List.isEmpty_iff, List.contains_eq_mem, decide_eq_true_eq] at ho
        obtain ⟨rfl, hmem⟩ := ho
        obtain rfl := Option.some.inj h
        exact .opening hmem
      · split at h
        · rename_i hall
          obtain rfl := Option.some.inj h
          have hword : Symbol.Writable ⟨String.ofList (c :: rest)⟩ := by
            refine ⟨by simp, ?_⟩
            simpa using hall
          have hmove : Move (operand stack) _ _ := .symbol hword
          simpa using hmove
        · simp at h

/-- A step where an operator may follow is one of two moves. -/
theorem move_of_step_operator {stack : List Frame} {last : Sentence} {part : Token} {r : Reader}
    (h : (operator stack last).step part = some r) : Move (operator stack last) part r := by
  simp only [step] at h
  split at h
  · rename_i c hc
    obtain rfl := Option.some.inj h
    simpa using Move.connective (Connective.ofGlyph?_eq_some_iff.mp hc) rfl
  · split at h
    · rename_i c _
      split at h
      · rename_i hc
        split at h
        · rename_i o stack' inner hcollapse
          obtain rfl := Option.some.inj h
          exact .closing (by simpa using hc) hcollapse
        · simp at h
      · simp at h
    · simp at h

/-- Every move is a step. -/
theorem Move.step {r r' : Reader} {part : Token} (h : Move r part r') : r.step part = some r' := by
  cases h with
  | @negation stack g hg =>
    have hmem : negationGlyphs.contains g = true := by simpa using hg
    simp [Reader.step, hmem, -List.contains_eq_mem]
  | @opening stack o ho =>
    have hglyph := opening_not_mem_negationGlyphs ho
    have hmem : openingBrackets.contains o = true := by simpa using ho
    simp only [Reader.step, hglyph, hmem, List.isEmpty_nil, Bool.and_self, if_true]
    rfl
  | @symbol stack s hs =>
    obtain ⟨hne, hall⟩ := hs
    -- a word is taken for a symbol because it is neither a spelling of negation nor a bracket
    have hglyph : negationGlyphs.contains s.name = false := by
      simpa using fun hmem => not_isWord_of_mem_negationGlyphs hmem ⟨hne, hall⟩
    cases hname : s.name.toList with
    | nil => exact absurd hname hne
    | cons c rest =>
      rw [hname] at hall
      have hbracket : openingBrackets.contains c = false := by
        rw [← Bool.not_eq_true, List.contains_iff_mem]
        intro hmem
        have hmark := isMark_of_mem_openingBrackets c hmem
        rw [isMark_of_isAlphabetic (hall c (by simp))] at hmark
        exact absurd hmark (by simp)
      have hletters : (c :: rest).all isAlphabetic = true := by simpa using hall
      have hofList : String.ofList (c :: rest) = s.name := by rw [← hname, String.ofList_toList]
      simp only [Reader.step, hofList, hglyph, hbracket, hletters, Bool.and_false, if_true]
      rfl
  | @connective stack stack' last l c g hg hcollapse =>
    have hglyph := Connective.ofGlyph?_eq_some_iff.mpr hg
    simp [Reader.step, hglyph, hcollapse]
  | @closing stack stack' last inner o c hc hcollapse =>
    have hglyph := ofGlyph?_closing hc
    have hmem : closingBrackets.contains c = true := by simpa using hc
    simp only [Reader.step, hglyph, hmem, hcollapse, if_true]

/-- **The reader makes the five moves and no others.** -/
theorem step_eq_some_iff {r r' : Reader} {part : Token} : r.step part = some r' ↔ Move r part r' := by
  constructor
  · intro h
    cases r with
    | operand stack => exact move_of_step_operand h
    | operator stack last => exact move_of_step_operator h
  · exact Move.step

/-! ## Many parts -/

/-- The moment after parts, unless one of them does not fit. -/
def steps (r : Reader) : List Token → Option Reader
  | [] => some r
  | part :: rest => (r.step part).bind fun r => r.steps rest

theorem steps_append (r : Reader) (parts more : List Token) :
    r.steps (parts ++ more) = (r.steps parts).bind fun r => r.steps more := by
  induction parts generalizing r with
  | nil => rfl
  | cons part rest ih =>
    simp only [List.cons_append, steps]
    cases r.step part with
    | none => rfl
    | some r => exact ih r

/-- Parts that are read one after another. -/
theorem steps_trans {r r' r'' : Reader} {parts more : List Token} (h : r.steps parts = some r')
    (h' : r'.steps more = some r'') : r.steps (parts ++ more) = some r'' := by
  rw [steps_append, h]
  exact h'

theorem steps_of_move {r r' : Reader} {part : Token} (h : Move r part r') : r.steps [part] = some r' := by
  simp [steps, h.step]

/-- Positions only matter to faults. -/
theorem run_eq_ok_iff {r r' : Reader} {position : Nat} {lexemes : List Lexeme} :
    r.run position lexemes = .ok r' ↔ r.steps (lexemes.map Lexeme.part) = some r' := by
  induction lexemes generalizing r position with
  | nil => simp [run, steps]
  | cons l rest ih =>
    simp only [run, List.map_cons, steps]
    cases r.step l.part with
    | none => simp
    | some next => exact ih

/-! ## Accepted parts do not run together -/

/-- One character, or two that are a glyph together. -/
def isGlyphShape : Token → Bool
  | [_] => true
  | [c, d] => isDoubleGlyph c d
  | _ => false

/-- Every glyph is a part as the cut makes them. -/
theorem lexical_of_mem_glyphs {c : Connective} {g : String} (hg : g ∈ c.glyphs) : Lexical g.toList := by
  have hshape : ∀ g ∈ c.glyphs, isGlyphShape g.toList = true := by cases c <;> decide
  have hg' := hshape g hg
  rcases glyph_eq_v_or_isMark c g hg with rfl | hmark
  · exact .word (by decide)
  · -- the other glyphs are one mark, or two that belong together
    generalize g.toList = part at hg' hmark
    match part, hg' with
    | [x], _ => exact .single (hmark x (by simp))
    | [x, y], hdouble => exact .double hdouble

theorem lexical_of_mem_negationGlyphs {g : String} (hg : g ∈ negationGlyphs) : Lexical g.toList := by
  simp only [negationGlyphs, List.mem_cons, List.not_mem_nil, or_false] at hg
  rcases hg with rfl | rfl | rfl <;> exact .single (by decide)

/-- Every part that the reader moves on is one that the cut makes. -/
theorem Move.lexical {r r' : Reader} {part : Token} (h : Move r part r') : Lexical part := by
  cases h with
  | negation hg => exact lexical_of_mem_negationGlyphs hg
  | opening ho => exact .single (isMark_of_mem_openingBrackets _ ho)
  | symbol hs => exact .word hs
  | connective hg _ => exact lexical_of_mem_glyphs hg
  | closing hc _ => exact .single (isMark_of_mem_closingBrackets _ hc)

/-- After the first half of a glyph an operand must come: such a part is neither a symbol nor a closing
    bracket. -/
theorem Move.operand_of_isDoubleGlyph {r r' : Reader} {part : Token} {c d : Char} (h : Move r part r')
    (hpart : part = [c]) (hdouble : isDoubleGlyph c d = true) : ∃ stack, r' = operand stack := by
  cases h with
  | negation _ => exact ⟨_, rfl⟩
  | opening _ => exact ⟨_, rfl⟩
  | symbol hs =>
    rw [Symbol.Writable, hpart] at hs
    exact absurd hs (not_isWord_of_isMark (isMark_of_isDoubleGlyph hdouble).1)
  | connective _ _ => exact ⟨_, rfl⟩
  | @closing stack stack' last inner o c' hc _ =>
    obtain rfl : c' = c := by simpa using hpart
    simp only [closingBrackets, List.mem_cons, List.not_mem_nil, or_false] at hc
    rcases hc with rfl | rfl | rfl <;> exact absurd hdouble (by simp [isDoubleGlyph])

/-- The characters that stand second in a glyph of two characters. -/
def secondHalves : List Char := ['&', '\\', '|', '/']

theorem isDoubleGlyph_of_not_mem_secondHalves {d : Char} (hd : d ∉ secondHalves) (c : Char) :
    isDoubleGlyph c d = false := by
  rw [← Bool.not_eq_true]
  intro h
  apply hd
  apply isDoubleGlyph_cases h <;> decide

/-- No operand starts with the second half of a glyph. -/
theorem Move.head_operand {stack : List Frame} {r : Reader} {part : Token} {d : Char}
    (h : Move (operand stack) part r) (hd : d ∈ part.head?) (c : Char) : isDoubleGlyph c d = false := by
  have hmem := List.mem_of_mem_head? hd
  cases h with
  | @negation _ g hg =>
    have hglyphs : ∀ g ∈ negationGlyphs, ∀ x ∈ g.toList, x ∉ secondHalves := by
      simp [negationGlyphs, secondHalves]
    exact isDoubleGlyph_of_not_mem_secondHalves (hglyphs g hg d hmem) c
  | @opening _ o ho =>
    have hbrackets : ∀ o ∈ openingBrackets, o ∉ secondHalves := by
      simp [openingBrackets, secondHalves]
    obtain rfl := Option.some.inj hd
    exact isDoubleGlyph_of_not_mem_secondHalves (hbrackets _ ho) c
  | symbol hs => exact isDoubleGlyph_of_right (isMark_of_isAlphabetic (hs.2 d hmem)) c

/-- A writing of parts that are accepted as an operand's beginning does not start with the second half of a
    glyph. -/
theorem head_of_written_operand {stack : List Frame} {r : Reader} {parts : List Token} {cs : List Char}
    {d : Char} (hwritten : Written parts cs) (h : (operand stack).steps parts = some r)
    (hd : d ∈ cs.head?) (c : Char) : isDoubleGlyph c d = false := by
  cases hwritten with
  | tail hblanks =>
    have hblank := hblanks d (List.mem_of_mem_head? hd)
    exact isDoubleGlyph_of_right (isMark_of_isBlank hblank) c
  | @part gap part parts rest hgap _ _ =>
    cases gap with
    | cons b gap =>
      obtain rfl := Option.some.inj hd
      exact isDoubleGlyph_of_right (isMark_of_isBlank (hgap b (by simp))) c
    | nil =>
      -- the text starts as the first part does, and the reader moves on that part
      simp only [steps, Option.bind_eq_some_iff] at h
      obtain ⟨next, hstep, _⟩ := h
      have hmove := step_eq_some_iff.mp hstep
      refine hmove.head_operand ?_ c
      cases part with
      | nil => cases hmove.lexical with | word hword => exact absurd rfl hword.1
      | cons x part => exact hd

/-- **A writing of parts that the reader moves on is cut into them.** -/
theorem tokens_scan_of_written {parts : List Token} {cs : List Char} (hwritten : Written parts cs)
    {r r' : Reader} (h : r.steps parts = some r') : (scan cs).tokens = parts := by
  induction hwritten generalizing r with
  | @tail blanks hblank =>
    have hscan := scan_gap hblank []
    rw [List.append_nil] at hscan
    rw [hscan]
    rfl
  | @part gap part parts rest hgap hend hrest ih =>
    simp only [steps, Option.bind_eq_some_iff] at h
    obtain ⟨next, hstep, hsteps⟩ := h
    have hmove := step_eq_some_iff.mp hstep
    have hbefore : EndsBefore part rest := by
      refine ⟨hend, ?_⟩
      intro c hpart d hd
      rw [← Bool.not_eq_true]
      intro hdouble
      -- after such a part an operand must come, but no operand starts with a second half
      obtain ⟨stack, rfl⟩ := hmove.operand_of_isDoubleGlyph hpart hdouble
      rw [head_of_written_operand hrest hsteps hd] at hdouble
      exact absurd hdouble (by simp)
    rw [List.append_assoc, scan_gap hgap, scan_append hmove.lexical hbefore, Scan.tokens_consPart, ih hsteps]

end Reader

end Sentential
