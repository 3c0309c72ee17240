import Sentential.Proofs.Moves

/-!
# `Sentential.Proofs.Reading` — the reader accepts exactly the grammar

The two directions are two simulations over the moves of the reader.

* **Soundness.** What is open is well formed at every moment (`Reader.Valid`): a pending connective has a
  left operand that binds strictly tighter, and may itself stand where it was begun (`Admits`). Each move
  keeps this and adds its part to the tokens (`Move.valid`), so a finished sentence has the grammar's shape
  and is written with exactly the parts that were read.
* **Completeness.** A well-formed sentence is read to a moment from which `collapse` gives it back whole
  (`steps_tokens`). Its right spine is still open then, so the statement speaks of every class of connectives
  that a following part may end.

## Contents
* `Admits`, `WellFormedStack`, `Reader.Valid`, `Reader.tokens` — the invariant
* `collapse_valid`, `Move.valid`, `steps_valid` — it is kept
* `steps_tokens` — a well-formed sentence is read
* `Sentence.parse_eq_ok_iff` — both together, on texts
-/

namespace Sentential

/-! ## The invariant -/

/-- The tokens of an open frame. -/
def Frame.tokens : Frame → List Token
  | negation g => [g.toList]
  | left l _ g => l.tokens ++ [g.toList]
  | group o => [[o]]

/-- The tokens of what is open, the outermost frame first. -/
def stackTokens : List Frame → List Token
  | [] => []
  | frame :: stack => stackTokens stack ++ frame.tokens

/-- A sentence of a level may stand directly inside the innermost open frame. -/
def Admits (level : Nat) : List Frame → Prop
  | .negation _ :: _ => level = 0
  | .left _ c _ :: _ => level ≤ c.looseness + 1
  | _ => True

theorem Admits.mono {n m : Nat} {stack : List Frame} (h : Admits m stack) (hnm : n ≤ m) : Admits n stack := by
  match stack, h with
  | [], _ => trivial
  | .negation _ :: _, h => exact Nat.le_zero.mp (h ▸ hnm)
  | .left _ c _ :: _, h => exact Nat.le_trans hnm h
  | .group _ :: _, _ => trivial

/-- Every open frame is well formed where it stands. -/
def WellFormedStack : List Frame → Prop
  | [] => True
  | .negation g :: stack => g ∈ negationGlyphs ∧ WellFormedStack stack
  | .left l c g :: stack =>
    g ∈ c.glyphs ∧ l.level < c.looseness + 1 ∧ l.WellFormed ∧ Admits (c.looseness + 1) stack ∧
      WellFormedStack stack
  | .group o :: stack => o ∈ openingBrackets ∧ WellFormedStack stack

namespace Reader

/-- What is open is well formed. An operand that has just ended is no binary sentence, and no negation waits
    for it any more. -/
def Valid : Reader → Prop
  | operand stack => WellFormedStack stack
  | operator stack last => WellFormedStack stack ∧ last.WellFormed ∧ last.level = 0 ∧ Admits 1 stack

/-- The tokens read so far. -/
def tokens : Reader → List Token
  | operand stack => stackTokens stack
  | operator stack last => stackTokens stack ++ last.tokens

end Reader

/-! ## Soundness: the moves keep the invariant -/

/-- Pending connectives that are ended make well-formed sentences of the same tokens. The result stays at a
    level that bounds the operand and the connectives ended. -/
theorem collapse_valid {ends : Connective → Bool} {stack stack' : List Frame} {t t' : Sentence}
    (hstack : WellFormedStack stack) (ht : t.WellFormed) (hadmits : Admits t.level stack)
    (hopen : Admits 1 stack) (h : collapse ends stack t = (stack', t')) :
    WellFormedStack stack' ∧ t'.WellFormed ∧ Admits 1 stack' ∧
      stackTokens stack' ++ t'.tokens = stackTokens stack ++ t.tokens ∧
      (∀ n, t.level ≤ n → (∀ d, ends d = true → d.looseness + 1 ≤ n) → t'.level ≤ n) ∧
      (∀ l d g rest, stack' = .left l d g :: rest → ends d = false) := by
  fun_induction collapse ends stack t with
  | case1 l c g stack r hends ih =>
    -- the connective is ended, and its sentence stands where it was begun
    obtain ⟨hg, hlevel, hl, hadmits', hstack'⟩ := hstack
    obtain ⟨h1, h2, h3, htokens, hbound, h6⟩ :=
      ih hstack' ⟨hg, hlevel, hadmits, hl, ht⟩ hadmits' (hadmits'.mono (by omega)) h
    refine ⟨h1, h2, h3, ?_, fun n _ hn => hbound n (hn c hends) hn, h6⟩
    rw [htokens]
    simp [stackTokens, Frame.tokens, Sentence.tokens]
  | case2 l c g stack r hends =>
    obtain ⟨rfl, rfl⟩ := Prod.mk.inj h
    refine ⟨hstack, ht, hopen, rfl, fun n hn _ => hn, ?_⟩
    intro l' d g' rest heq
    obtain ⟨⟨rfl, rfl, rfl⟩, rfl⟩ := by simpa using heq
    simpa using hends
  | case3 stack r hstop =>
    obtain ⟨rfl, rfl⟩ := Prod.mk.inj h
    exact ⟨hstack, ht, hopen, rfl, fun n hn _ => hn, fun l d g rest heq => absurd heq (hstop l d g rest)⟩

/-- An operand that has ended and is no binary sentence ends the negations that wait for it. -/
theorem completed_valid {stack : List Frame} {t : Sentence} (hstack : WellFormedStack stack)
    (ht : t.WellFormed) (hlevel : t.level = 0) :
    (Reader.completed stack t).Valid ∧ (Reader.completed stack t).tokens = stackTokens stack ++ t.tokens := by
  unfold Reader.completed
  fun_induction closeNegations stack t with
  | case1 g stack t ih =>
    obtain ⟨hg, hstack'⟩ := hstack
    obtain ⟨hvalid, htokens⟩ := ih hstack' ⟨hg, hlevel, ht⟩ rfl
    refine ⟨hvalid, ?_⟩
    rw [htokens]
    simp [stackTokens, Frame.tokens, Sentence.tokens]
  | case2 stack t hstop =>
    refine ⟨⟨hstack, ht, hlevel, ?_⟩, rfl⟩
    match stack, hstop with
    | [], _ => trivial
    | .negation g :: rest, hstop => exact absurd rfl (hstop g rest)
    | .left _ c _ :: _, _ => exact Nat.le_add_left 1 c.looseness
    | .group _ :: _, _ => trivial

namespace Reader

/-- **A move keeps the invariant and adds its part to the tokens.** -/
theorem Move.valid {r r' : Reader} {part : Token} (h : Move r part r') (hr : r.Valid) :
    r'.Valid ∧ r'.tokens = r.tokens ++ [part] := by
  cases h with
  | negation hg => exact ⟨⟨hg, hr⟩, rfl⟩
  | opening ho => exact ⟨⟨ho, hr⟩, rfl⟩
  | @symbol stack s hs => exact completed_valid hr hs rfl
  | @connective stack stack' last l c g hg hcollapse =>
    obtain ⟨hstack, hlast, hlevel, hopen⟩ := hr
    have hadmits : Admits last.level stack := hopen.mono (by omega)
    obtain ⟨hstack', hl, hopen', htokens, hbound, hstop⟩ :=
      collapse_valid hstack hlast hadmits hopen hcollapse
    -- what was ended binds tighter than the new connective, and what was not admits it
    have hlt : l.level ≤ c.looseness := hbound c.looseness (by omega) (fun d hd => of_decide_eq_true hd)
    have hadmits' : Admits (c.looseness + 1) stack' := by
      match stack', hopen', hstop with
      | [], _, _ => trivial
      | .negation _ :: _, hopen', _ => exact absurd hopen' (by simp [Admits])
      | .left _ d _ :: _, _, hstop =>
        have hd := hstop _ d _ _ rfl
        simp only [decide_eq_false_iff_not, Nat.not_lt] at hd
        exact Nat.succ_le_succ hd
      | .group _ :: _, _, _ => trivial
    refine ⟨⟨hg, by omega, hl, hadmits', hstack'⟩, ?_⟩
    simp only [tokens, stackTokens, Frame.tokens]
    rw [← List.append_assoc, htokens]
  | @closing stack stack' last inner o c hc hcollapse =>
    obtain ⟨hstack, hlast, hlevel, hopen⟩ := hr
    have hadmits : Admits last.level stack := hopen.mono (by omega)
    obtain ⟨⟨ho, hstack'⟩, hinner, _, htokens, _, _⟩ := collapse_valid hstack hlast hadmits hopen hcollapse
    -- the group is a finished operand, whatever stood in it
    obtain ⟨hvalid, hread⟩ := completed_valid (t := .group o inner c) hstack' ⟨ho, hc, hinner⟩ rfl
    refine ⟨hvalid, ?_⟩
    rw [hread]
    simp only [tokens]
    rw [← htokens]
    simp [stackTokens, Frame.tokens, Sentence.tokens]

/-- Many parts keep the invariant and are added to the tokens. -/
theorem steps_valid {r r' : Reader} {parts : List Token} (h : r.steps parts = some r') (hr : r.Valid) :
    r'.Valid ∧ r'.tokens = r.tokens ++ parts := by
  induction parts generalizing r with
  | nil =>
    obtain rfl := Option.some.inj h
    exact ⟨hr, (List.append_nil _).symm⟩
  | cons part rest ih =>
    simp only [steps, Option.bind_eq_some_iff] at h
    obtain ⟨next, hstep, hsteps⟩ := h
    obtain ⟨hnext, htokens⟩ := (step_eq_some_iff.mp hstep).valid hr
    obtain ⟨hvalid, hrest⟩ := ih hsteps hnext
    refine ⟨hvalid, ?_⟩
    rw [hrest, htokens, List.append_assoc]
    rfl

/-- A sentence that may end at a valid moment has the grammar's shape and the tokens read. -/
theorem finish?_valid {r : Reader} {t : Sentence} (hr : r.Valid) (h : r.finish? = some t) :
    t.WellFormed ∧ t.tokens = r.tokens := by
  cases r with
  | operand stack => simp [finish?] at h
  | operator stack last =>
    obtain ⟨hstack, hlast, hlevel, hopen⟩ := hr
    simp only [finish?] at h
    split at h
    · rename_i t' hcollapse
      obtain rfl := Option.some.inj h
      have hadmits : Admits last.level stack := hopen.mono (by omega)
      obtain ⟨_, ht, _, htokens, _⟩ := collapse_valid hstack hlast hadmits hopen hcollapse
      exact ⟨ht, by simpa [stackTokens, tokens] using htokens⟩
    · simp at h

/-! ## Completeness: a well-formed sentence is read -/

/-- A stack that admits a connective is not ended by looser ones. -/
theorem collapse_of_admits {c : Connective} {stack : List Frame} {t : Sentence}
    (h : Admits (c.looseness + 1) stack) :
    collapse (fun d => d.looseness < c.looseness) stack t = (stack, t) := by
  match stack, h with
  | [], _ => rfl
  | .negation _ :: _, _ => rfl
  | .left l d g :: rest, h =>
    have hd : ¬ d.looseness < c.looseness := by
      have : c.looseness + 1 ≤ d.looseness + 1 := h
      omega
    simp [collapse, hd]
  | .group _ :: _, _ => rfl

/-- No negation waits where a binary sentence may stand. -/
theorem closeNegations_of_admits {n : Nat} {stack : List Frame} {t : Sentence} (h : Admits (n + 1) stack) :
    closeNegations stack t = (stack, t) := by
  match stack, h with
  | [], _ => rfl
  | .negation _ :: _, h => exact absurd h (by simp [Admits])
  | .left _ _ _ :: _, _ => rfl
  | .group _ :: _, _ => rfl

/-- The moment `r` is one after the sentence `t` on a stack: `t` is whole again, with the negations that
    waited for it, once the connectives below its level are ended. -/
def After (stack : List Frame) (t : Sentence) (r : Reader) : Prop :=
  ∃ stack' last, r = operator stack' last ∧
    ∀ ends : Connective → Bool, (∀ d, d.looseness < t.level → ends d = true) →
      collapse ends stack' last = collapse ends (closeNegations stack t).1 (closeNegations stack t).2

theorem after_completed {stack : List Frame} {t : Sentence} : After stack t (completed stack t) :=
  ⟨_, _, rfl, fun _ _ => rfl⟩

/-- Once every connective is ended, nothing but the sentence remains inside an open group or at the top. -/
theorem After.collapse_all {stack : List Frame} {t : Sentence} {r : Reader} (h : After stack t r)
    (hstack : ∀ t, closeNegations stack t = (stack, t))
    (hstop : ∀ t, collapse (fun _ => true) stack t = (stack, t)) :
    ∃ stack' last, r = operator stack' last ∧ collapse (fun _ => true) stack' last = (stack, t) := by
  obtain ⟨stack', last, hr, hcollapse⟩ := h
  refine ⟨stack', last, hr, ?_⟩
  rw [hcollapse _ (fun _ _ => rfl), hstack, hstop]

/-- A connective ends the left operand that is before it, and nothing that was open before that. -/
theorem After.connective {stack : List Frame} {t : Sentence} {r : Reader} {c : Connective} {g : String}
    (h : After stack t r) (hg : g ∈ c.glyphs) (hlevel : t.level ≤ c.looseness)
    (hstack : Admits (c.looseness + 1) stack) : Move r g.toList (operand (.left t c g :: stack)) := by
  obtain ⟨stack', last, rfl, hcollapse⟩ := h
  have hends : ∀ d : Connective, d.looseness < t.level → decide (d.looseness < c.looseness) = true := by
    intro d hd
    exact decide_eq_true (Nat.lt_of_lt_of_le hd hlevel)
  refine .connective hg ?_
  rw [hcollapse _ hends, closeNegations_of_admits hstack, collapse_of_admits hstack]

/-- **A well-formed sentence is read wherever its level is admitted.** -/
theorem steps_tokens {t : Sentence} (ht : t.WellFormed) (stack : List Frame) (h : Admits t.level stack) :
    ∃ r, (operand stack).steps t.tokens = some r ∧ After stack t r := by
  induction t generalizing stack with
  | symbol s => exact ⟨_, steps_of_move (.symbol ht), after_completed⟩
  | negation g t ih =>
    obtain ⟨hg, hlevel, ht⟩ := ht
    obtain ⟨r, hsteps, stack', last, rfl, hcollapse⟩ := ih ht (.negation g :: stack) hlevel
    refine ⟨_, steps_trans (steps_of_move (.negation hg)) hsteps, stack', last, rfl, ?_⟩
    intro ends _
    exact hcollapse ends (by simp [hlevel])
  | binary c g l r ihl ihr =>
    obtain ⟨hg, hleft, hright, hl, hr⟩ := ht
    have h : Admits (c.looseness + 1) stack := h
    obtain ⟨_, hstepsl, hafterl⟩ := ihl hl stack (h.mono (by omega))
    have hmove := hafterl.connective hg (Nat.le_of_lt_succ hleft) h
    -- the right operand stays open, and with it the connective
    obtain ⟨_, hstepsr, stackr, lastr, rfl, hcollapser⟩ := ihr hr (.left l c g :: stack) hright
    refine ⟨_, ?_, stackr, lastr, rfl, ?_⟩
    · exact steps_trans hstepsl (steps_trans (steps_of_move hmove) hstepsr)
    · intro ends hall
      have hc : ends c = true := hall c (Nat.lt_succ_self _)
      have hallr : ∀ d : Connective, d.looseness < r.level → ends d = true :=
        fun d hd => hall d (Nat.lt_of_lt_of_le hd hright)
      rw [hcollapser ends hallr, closeNegations_of_admits h]
      simp [closeNegations, collapse, hc]
  | group o t c ih =>
    obtain ⟨ho, hc, ht⟩ := ht
    obtain ⟨_, hsteps, hafter⟩ := ih ht (.group o :: stack) trivial
    obtain ⟨stack', last, rfl, hcollapse⟩ := hafter.collapse_all (fun _ => rfl) (fun _ => rfl)
    refine ⟨_, ?_, after_completed⟩
    have hinner := steps_trans (steps_of_move (.opening ho)) hsteps
    exact steps_trans hinner (steps_of_move (.closing hc hcollapse))

end Reader

/-! ## Texts -/

namespace Sentence

/-- A text that is read has its tree's tokens, and the tree has the grammar's shape. -/
theorem written_of_parse {source : String} {t : Sentence} (h : parse source = .ok t) :
    t.WellFormed ∧ Written t.tokens source.toList := by
  simp only [parse, parseChars] at h
  split at h
  · simp at h
  · rename_i r hrun
    split at h
    · rename_i t' hfinish
      obtain rfl := Except.ok.inj h
      obtain ⟨hvalid, htokens⟩ := Reader.steps_valid (Reader.run_eq_ok_iff.mp hrun) trivial
      obtain ⟨ht, hread⟩ := Reader.finish?_valid hvalid hfinish
      refine ⟨ht, ?_⟩
      rw [hread, htokens]
      exact written_scan source.toList
    · simp at h

/-- A writing of a well-formed sentence is read. -/
theorem parse_of_written {source : String} {t : Sentence} (ht : t.WellFormed)
    (h : Written t.tokens source.toList) : parse source = .ok t := by
  obtain ⟨r, hsteps, hafter⟩ := Reader.steps_tokens ht [] trivial
  obtain ⟨stack, last, rfl, hcollapse⟩ := hafter.collapse_all (fun _ => rfl) (fun _ => rfl)
  have hscan : (scan source.toList).lexemes.map Lexeme.part = t.tokens := Reader.tokens_scan_of_written h hsteps
  have hrun : Reader.start.run 0 (scan source.toList).lexemes = .ok (.operator stack last) := by
    rw [Reader.run_eq_ok_iff, hscan]
    exact hsteps
  simp only [parse, parseChars, hrun, Reader.finish?, hcollapse]

/-- **The reader accepts exactly the grammar.** A text is read as a tree if and only if the tree has the
    grammar's shape and the text is the tree's tokens written out. -/
theorem parse_eq_ok_iff {source : String} {t : Sentence} :
    parse source = .ok t ↔ t.WellFormed ∧ Written t.tokens source.toList :=
  ⟨written_of_parse, fun h => parse_of_written h.1 h.2⟩

end Sentence

end Sentential
