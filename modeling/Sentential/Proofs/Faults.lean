import Mathlib.Data.List.Basic
import Sentential.Proofs.Reading

/-!
# `Sentential.Proofs.Faults` — a fault is where it says, and what it says is missing

A reader that stops at a part has read everything in front of it. The text before a fault is therefore the
beginning of a sentence (`reaches_of_parse_error`), and what the moment asks for is enough to go on: an operand
where one must come, and then a closing bracket for each group that is open. If neither is missing, the text
before the fault is a sentence already, and the fault is that more follows.

Which of the three it is can be seen from the moment alone (`Reader.groups`), and the list of what could have
come next is different in each.

## Contents
* `Readable` — the texts that are sentences
* `Reader.Reaches`, `reaches_of_parse_error` — the moment after a text; a fault is after a text that is reached
* `Reader.groups`, `finish?_isSome_iff` — a sentence may end where no group is open
* `Reaches.readable_closed` — closing brackets complete a text
* `SyntaxError.LacksOperand`, `LacksBracket`, `LacksOperator`, `Sentence.parse_error_exact` — the three faults
-/

namespace Sentential

open Text

/-- The text is that of a sentence. -/
def Readable (source : String) : Prop := ∃ t, Sentence.parse source = .ok t

namespace Reader

/-! ## Where a run stops -/

/-- A run that stops has read the text before the part at which it stops, gap included. -/
theorem exists_of_run_eq_error {r : Reader} {position : Nat} {lexemes : List Lexeme} {tail : List Char}
    {fault : SyntaxError} (hgaps : ∀ l ∈ lexemes, ∀ b ∈ l.gap, isBlank b = true)
    (hwritten : Written (lexemes.map Lexeme.part) (lexemes.flatMap Lexeme.chars ++ tail))
    (h : r.run position lexemes = .error fault) :
    ∃ parts cs rest r', Written parts cs ∧ r.steps parts = some r' ∧
      lexemes.flatMap Lexeme.chars ++ tail = cs ++ rest ∧ fault = ⟨position + cs.length, r'.expected⟩ := by
  induction lexemes generalizing r position with
  | nil => simp [run] at h
  | cons l lexemes ih =>
    have hgap := hgaps l (by simp)
    simp only [run] at h
    split at h
    · -- the part is read, so that the run stops in what follows it
      rename_i next hstep
      have hmove := step_eq_some_iff.mp hstep
      have htext : (l :: lexemes).flatMap Lexeme.chars ++ tail
          = l.gap ++ l.part ++ (lexemes.flatMap Lexeme.chars ++ tail) := by
        simp [Lexeme.chars]
      rw [htext] at hwritten ⊢
      obtain ⟨hend, hrest⟩ := hwritten.cut hgap hmove.lexical
      obtain ⟨parts, cs, rest, r', hcs, hsteps, heq, hfault⟩ := ih (fun l hl => hgaps l (by simp [hl])) hrest h
      have hends : IsWord l.part → EndsWord cs := by
        intro hword
        have hafter := hend hword
        rw [heq] at hafter
        exact hafter.of_append
      refine ⟨l.part :: parts, l.gap ++ l.part ++ cs, rest, r', .part hgap hends hcs, ?_, ?_, ?_⟩
      · simp [steps, hstep, hsteps]
      · rw [heq, List.append_assoc _ cs]
      · rw [hfault, List.length_append, List.length_append]
        simp only [Nat.add_assoc]
    · refine ⟨[], l.gap, l.part ++ lexemes.flatMap Lexeme.chars ++ tail, r, .tail hgap, rfl, ?_, ?_⟩
      · simp [Lexeme.chars]
      · exact (Except.error.inj h).symm

/-- The reader is at the moment after the text. -/
def Reaches (cs : List Char) (r : Reader) : Prop := ∃ parts, Written parts cs ∧ start.steps parts = some r

/-- **A fault is after a text that is read**, and what it expects is what could come at that moment. -/
theorem reaches_of_parse_error {source : String} {fault : SyntaxError}
    (h : Sentence.parse source = .error fault) :
    ∃ cs rest r, source.toList = cs ++ rest ∧ fault = ⟨cs.length, r.expected⟩ ∧ Reaches cs r := by
  have hwritten := written_scan source.toList
  have htext : (scan source.toList).lexemes.flatMap Lexeme.chars ++ (scan source.toList).tail = source.toList :=
    chars_scan source.toList
  simp only [Sentence.parse, Sentence.parseChars] at h
  split at h
  · rename_i hrun
    obtain rfl := Except.error.inj h
    rw [← htext] at hwritten
    obtain ⟨parts, cs, rest, r, hcs, hsteps, hsplit, hfault⟩ :=
      exists_of_run_eq_error (gaps_scan source.toList) (by rwa [htext] at hwritten ⊢) hrun
    rw [htext] at hsplit
    exact ⟨cs, rest, r, hsplit, by simpa using hfault, parts, hcs, hsteps⟩
  · rename_i r hrun
    split at h
    · simp at h
    · -- every part is read, and it is the end that does not fit
      refine ⟨source.toList, [], r, by simp, (Except.error.inj h).symm, _, hwritten, ?_⟩
      exact run_eq_ok_iff.mp hrun

namespace Reaches

variable {cs : List Char} {r : Reader}

theorem valid (h : Reaches cs r) : r.Valid := by
  obtain ⟨parts, _, hsteps⟩ := h
  exact (steps_valid hsteps trivial).1

/-- One more part, behind blanks or where it prolongs no word. -/
theorem snoc {r' : Reader} {gap : List Char} {part : Token} (h : Reaches cs r) (hmove : Move r part r')
    (hgap : ∀ c ∈ gap, isBlank c = true) (hstart : EndsWord (gap ++ part)) :
    Reaches (cs ++ (gap ++ part)) r' := by
  obtain ⟨parts, hwritten, hsteps⟩ := h
  have hpart : Written [part] (gap ++ part ++ []) := .part hgap (fun _ => by simp [EndsWord]) (.tail (by simp))
  rw [List.append_nil] at hpart
  exact ⟨parts ++ [part], hwritten.append hpart hstart, steps_trans hsteps (steps_of_move hmove)⟩

/-- The moment after a text says whether the text is a sentence. -/
theorem readable_iff (h : Reaches cs r) : Readable (String.ofList cs) ↔ r.finish?.isSome = true := by
  obtain ⟨parts, hwritten, hsteps⟩ := h
  have hrun : start.run 0 (scan cs).lexemes = .ok r := by
    rw [run_eq_ok_iff]
    show start.steps (scan cs).tokens = some r
    rw [tokens_scan_of_written hwritten hsteps, hsteps]
  simp only [Readable, Sentence.parse, String.toList_ofList, Sentence.parseChars, hrun]
  cases r.finish? <;> simp

end Reaches

/-! ## Open groups -/

/-- The number of groups that are open. -/
def groups : Reader → Nat
  | operand stack => stack.countP Frame.isGroup
  | operator stack _ => stack.countP Frame.isGroup

/-- Ending connectives leaves the groups open. -/
theorem countP_collapse (ends : Connective → Bool) (stack : List Frame) (t : Sentence) :
    (collapse ends stack t).1.countP Frame.isGroup = stack.countP Frame.isGroup := by
  fun_induction collapse ends stack t with
  | case1 l c g stack r hends ih => exact ih
  | case2 l c g stack r hends => rfl
  | case3 stack r hstop => rfl

/-- Ending negations leaves the groups open. -/
theorem countP_closeNegations (stack : List Frame) (t : Sentence) :
    (closeNegations stack t).1.countP Frame.isGroup = stack.countP Frame.isGroup := by
  fun_induction closeNegations stack t with
  | case1 g stack t ih => exact ih
  | case2 stack t hstop => rfl

/-- Once every connective is ended, a group is the innermost of what is open, or nothing is open. -/
theorem collapse_all_cases {stack : List Frame} {last : Sentence} (h : (operator stack last).Valid) :
    (∃ t, collapse (fun _ => true) stack last = ([], t)) ∨
      ∃ o stack' inner, collapse (fun _ => true) stack last = (.group o :: stack', inner) := by
  obtain ⟨hstack, hlast, hlevel, hopen⟩ := h
  obtain ⟨stack', t, hcollapse⟩ : ∃ stack' t, collapse (fun _ => true) stack last = (stack', t) := ⟨_, _, rfl⟩
  have hadmits : Admits last.level stack := hopen.mono (by omega)
  obtain ⟨_, _, hopen', _, _, hstop⟩ := collapse_valid hstack hlast hadmits hopen hcollapse
  match stack', hopen', hstop with
  | [], _, _ => exact .inl ⟨t, hcollapse⟩
  | .negation _ :: _, hopen', _ => exact absurd hopen' (by simp [Admits])
  | .left _ d _ :: _, _, hstop => exact absurd (hstop _ d _ _ rfl) (by simp)
  | .group o :: stack', _, _ => exact .inr ⟨o, stack', t, hcollapse⟩

/-- **A sentence may end after an operand where no group is open.** -/
theorem finish?_isSome_iff {stack : List Frame} {last : Sentence} (h : (operator stack last).Valid) :
    (operator stack last).finish?.isSome = true ↔ (operator stack last).groups = 0 := by
  have hgroups := countP_collapse (fun _ => true) stack last
  rcases collapse_all_cases h with ⟨t, hcollapse⟩ | ⟨o, stack', inner, hcollapse⟩
  · rw [hcollapse] at hgroups
    simpa [finish?, hcollapse, groups] using hgroups.symm
  · rw [hcollapse] at hgroups
    simp [finish?, hcollapse, groups, ← hgroups, List.countP_cons, Frame.isGroup]

theorem any_isGroup_iff {stack : List Frame} :
    stack.any Frame.isGroup = true ↔ 0 < stack.countP Frame.isGroup := by
  rw [List.any_eq_true, List.countP_pos_iff]

namespace Reaches

variable {cs : List Char} {stack : List Frame} {last : Sentence}

/-- Where a group is open, a closing bracket ends one group. -/
theorem close (h : Reaches cs (operator stack last)) (hgroups : (operator stack last).groups ≠ 0) {c : Char}
    (hc : c ∈ closingBrackets) : ∃ stack' last', Reaches (cs ++ [c]) (operator stack' last') ∧
      (operator stack' last').groups + 1 = (operator stack last).groups := by
  have hcount := countP_collapse (fun _ => true) stack last
  have hstart : EndsWord ([] ++ [c]) := by
    intro d hd
    obtain rfl : c = d := by simpa using hd
    exact (isMark_iff.mp (isMark_of_mem_closingBrackets c hc)).1
  rcases collapse_all_cases h.valid with ⟨t, hcollapse⟩ | ⟨o, stack', inner, hcollapse⟩
  · rw [hcollapse] at hcount
    exact absurd hcount.symm hgroups
  · refine ⟨_, _, h.snoc (.closing hc hcollapse) (by simp) hstart, ?_⟩
    rw [hcollapse] at hcount
    simp only [groups, countP_closeNegations, ← hcount, List.countP_cons, Frame.isGroup, if_true]

/-- **As many closing brackets as there are open groups complete a text after an operand**, whichever brackets
    they are. -/
theorem readable_closed {closers : List Char} (h : Reaches cs (operator stack last))
    (hclosers : ∀ c ∈ closers, c ∈ closingBrackets) (hlength : closers.length = (operator stack last).groups) :
    Readable (String.ofList (cs ++ closers)) := by
  induction closers generalizing cs stack last with
  | nil =>
    rw [List.append_nil, h.readable_iff, finish?_isSome_iff h.valid]
    exact hlength.symm
  | cons c closers ih =>
    rw [List.length_cons] at hlength
    obtain ⟨stack', last', hnext, hgroups⟩ := h.close (by omega) (hclosers c (by simp))
    rw [List.append_cons]
    exact ih hnext (fun d hd => hclosers d (by simp [hd])) (by omega)

end Reaches

end Reader

/-! ## Texts completed by closing brackets -/

/-- The text is completed to a sentence by closing brackets, at least so many. -/
def ClosedBy (least : Nat) (source : String) : Prop :=
  ∃ closers : List Char, least ≤ closers.length ∧ (∀ c ∈ closers, c ∈ closingBrackets) ∧
    Readable (source ++ String.ofList closers)

namespace Reader.Reaches

variable {cs : List Char} {stack : List Frame} {last : Sentence}

theorem closedBy {least : Nat} (h : Reaches cs (operator stack last))
    (hleast : least ≤ (operator stack last).groups) : ClosedBy least (String.ofList cs) := by
  refine ⟨List.replicate (operator stack last).groups ')', ?_, ?_, ?_⟩
  · rwa [List.length_replicate]
  · intro c hc
    rw [List.eq_of_mem_replicate hc]
    decide
  · rw [← String.ofList_append]
    refine h.readable_closed (fun c hc => ?_) List.length_replicate
    rw [List.eq_of_mem_replicate hc]
    decide

/-- Where an operand must come, a symbol and closing brackets complete the text. -/
theorem closedBy_symbol (h : Reaches cs (operand stack)) : ClosedBy 0 (String.ofList cs ++ " A") := by
  have hmove : Move (operand stack) ['A'] (completed stack (.symbol ⟨"A"⟩)) := .symbol (s := ⟨"A"⟩) (by decide)
  have hstart : EndsWord ([' '] ++ ['A']) := by
    intro c hc
    obtain rfl : ' ' = c := by simpa using hc
    decide
  have htext : String.ofList cs ++ " A" = String.ofList (cs ++ ([' '] ++ ['A'])) := by
    rw [String.ofList_append]
    rfl
  have hblank : ∀ c ∈ [' '], isBlank c = true := List.forall_mem_singleton.mpr rfl
  rw [htext]
  exact (h.snoc hmove hblank hstart).closedBy (Nat.zero_le _)

end Reader.Reaches

/-! ## Three faults -/

namespace SyntaxError

/-- The text before the place of the fault. -/
def before (fault : SyntaxError) (source : String) : String :=
  String.ofList (source.toList.take fault.position)

/-- An operand must come: with one, and all groups closed, the text before the fault is a sentence. -/
def LacksOperand (fault : SyntaxError) (source : String) : Prop :=
  fault.expected = ["negation", "opening bracket", "identifier"] ∧ ClosedBy 0 (fault.before source ++ " A")

/-- A group is open: the text before the fault is no sentence, and is one once all groups are closed. -/
def LacksBracket (fault : SyntaxError) (source : String) : Prop :=
  fault.expected = ["conjunction", "disjunction", "conditional", "biconditional", "closing bracket"] ∧
    ¬Readable (fault.before source) ∧ ClosedBy 1 (fault.before source)

/-- An operator must come, or nothing: the text before the fault is a sentence. -/
def LacksOperator (fault : SyntaxError) (source : String) : Prop :=
  fault.expected = ["conjunction", "disjunction", "conditional", "biconditional", "end of input"] ∧
    Readable (fault.before source)

variable {fault : SyntaxError} {source : String}

/-- The three faults differ in what they expect. -/
theorem LacksOperand.others (h : fault.LacksOperand source) :
    ¬fault.LacksBracket source ∧ ¬fault.LacksOperator source := by
  refine ⟨fun hbracket => ?_, fun hoperator => ?_⟩
  · exact absurd (h.1.symm.trans hbracket.1) (by decide)
  · exact absurd (h.1.symm.trans hoperator.1) (by decide)

theorem LacksBracket.not_lacksOperator (h : fault.LacksBracket source) : ¬fault.LacksOperator source :=
  fun hoperator => absurd (h.1.symm.trans hoperator.1) (by decide)

end SyntaxError

/-- What could come at a moment says what the text before it lacks. -/
theorem Reader.Reaches.lacks {fault : SyntaxError} {source : String} {cs : List Char} {r : Reader}
    (h : Reaches cs r) (hbefore : fault.before source = String.ofList cs)
    (hexpected : fault.expected = r.expected) :
    fault.LacksOperand source ∨ fault.LacksBracket source ∨ fault.LacksOperator source := by
  unfold SyntaxError.LacksOperand SyntaxError.LacksBracket SyntaxError.LacksOperator
  rw [hbefore, hexpected]
  cases r with
  | operand stack => exact .inl ⟨rfl, h.closedBy_symbol⟩
  | operator stack last =>
    have hread : Readable (String.ofList cs) ↔ (operator stack last).groups = 0 :=
      h.readable_iff.trans (finish?_isSome_iff h.valid)
    right
    rw [expected]
    by_cases hopen : stack.any Frame.isGroup = true
    · have hpos : 0 < (operator stack last).groups := any_isGroup_iff.mp hopen
      rw [if_pos hopen]
      exact .inl ⟨rfl, fun hreadable => Nat.ne_of_gt hpos (hread.mp hreadable), h.closedBy hpos⟩
    · have hnone : (operator stack last).groups = 0 := by
        rw [any_isGroup_iff, Nat.not_lt] at hopen
        exact Nat.le_zero.mp hopen
      rw [if_neg hopen]
      exact .inr ⟨rfl, hread.mpr hnone⟩

/-- **Faults are exact.** A fault is inside the text or at its end, on the border of a character, and exactly
    one of three things is missing there: an operand, a closing bracket, or an operator where the text before
    the fault is a sentence already. -/
theorem Sentence.parse_error_exact {source : String} {fault : SyntaxError}
    (h : Sentence.parse source = .error fault) :
    fault.position ≤ source.length ∧ (fault.before source).rawEndPos.IsValid source ∧
      ((fault.LacksOperand source ∧ ¬fault.LacksBracket source ∧ ¬fault.LacksOperator source) ∨
        (¬fault.LacksOperand source ∧ fault.LacksBracket source ∧ ¬fault.LacksOperator source) ∨
        (¬fault.LacksOperand source ∧ ¬fault.LacksBracket source ∧ fault.LacksOperator source)) := by
  obtain ⟨cs, rest, r, htext, rfl, hreaches⟩ := Reader.reaches_of_parse_error h
  have hbefore : SyntaxError.before ⟨cs.length, r.expected⟩ source = String.ofList cs := by
    rw [SyntaxError.before, htext, List.take_left]
  refine ⟨?_, ?_, ?_⟩
  · rw [← String.length_toList, htext, List.length_append]
    exact Nat.le_add_right _ _
  · rw [hbefore]
    refine String.Pos.Raw.isValid_iff_exists_append.mpr ⟨String.ofList cs, String.ofList rest, ?_, rfl⟩
    rw [← String.ofList_append, ← htext, String.ofList_toList]
  · rcases hreaches.lacks hbefore rfl with hoperand | hbracket | hoperator
    · exact .inl ⟨hoperand, hoperand.others⟩
    · exact .inr (.inl ⟨fun hoperand => hoperand.others.1 hbracket, hbracket, hbracket.not_lacksOperator⟩)
    · exact .inr (.inr ⟨fun hoperand => hoperand.others.2 hoperator,
        fun hbracket => hbracket.not_lacksOperator hoperator, hoperator⟩)

/-- A symbol behind an operand, with two groups open and one closed by a bracket of another family. -/
theorem Sentence.parse_error_exact_open_groups :
    let source := "\x7b¬(A ∧ v] ⊃ (B C"
    let fault : SyntaxError := ⟨15, ["conjunction", "disjunction", "conditional", "biconditional",
      "closing bracket"]⟩
    Sentence.parse source = .error fault ∧ fault.position ≤ source.length ∧
      fault.before source = "\x7b¬(A ∧ v] ⊃ (B " ∧ (fault.before source).rawEndPos.IsValid source ∧
      fault.LacksBracket source := by
  intro source fault
  have hread : Sentence.parse source = .error fault := by decide +kernel
  obtain ⟨hposition, hborder, hlacks⟩ := Sentence.parse_error_exact hread
  refine ⟨hread, hposition, by decide +kernel, hborder, ?_⟩
  rcases hlacks with ⟨hoperand, -⟩ | ⟨-, hbracket, -⟩ | ⟨-, -, hoperator⟩
  · exact absurd hoperand.1 (by decide)
  · exact hbracket
  · exact absurd hoperator.1 (by decide)

end Sentential
