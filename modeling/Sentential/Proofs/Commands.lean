import Sentential.Proofs.Citations
import Sentential.Proofs.Requests

/-!
# `Sentential.Proofs.Commands` — a session stays consistent, and a refused command changes nothing

A session refers to lines of its proof by number in two places, in the selection and in the citations of its
offers, and a removal gives lines other numbers. The numbers stay good (`Session.Consistent`) because a removal
discards selection and offers, and everything else leaves every line where it is. So an offer can always be
taken: nothing that it cites is missing.

A command changes several parts of a session one after the other. `Session.perform` makes these assignments in
place, where a refusal would leave behind what was assigned before it. It never does: whatever a command checks,
it checks before the first assignment, and so a refused one leaves the session as it was (`perform_run`,
`obey_run`). A session in place therefore goes through the same states as any (`runInPlace_eq`).

## Contents
* `Session.Consistent`, `Consistent.transition` — the numbers that a session holds are those of lines
* `onProof`, `perform`, `perform_run` — commands in place
* `obey`, `obey_run`, `runInPlace_eq` — command lines and runs in place
* `take_refused_iff`, `Obeys` — when an option is refused, and what a refusal leaves
* `runInPlace_consistent` — every state that a session reaches is consistent
-/

namespace Sentential

open Text

namespace Session

variable {medium : Medium} {s s' : Session}

/-! ## Consistent sessions -/

/-- Lines cite lines above them, and what is selected and what offers cite are lines of the proof. -/
structure Consistent (s : Session) : Prop where
  proof : s.proof.CitesAbove
  selected : ∀ i ∈ s.selected, i < s.proof.size
  offers : ∀ o ∈ s.offers, ∀ i ∈ o.sources, i < s.proof.size

/-- **Every transition keeps a session consistent.** -/
theorem Consistent.transition (h : s.Consistent) (ht : Transition medium s s') : s'.Consistent := by
  cases ht with
  | print => exact h
  | select hselected => exact ⟨h.proof, hselected, h.offers⟩
  | forms hsome hfound =>
    refine ⟨h.proof, h.selected, fun o ho => ?_⟩
    have hgrounded : s.proof.Grounded medium {} s.proof.size o.rule o.sources o.statement :=
      grounded_of_mem_formOffers hsome hfound ho
    exact hgrounded.sources_lt
  | rules hfound hoffers =>
    refine ⟨h.proof, h.selected, fun o ho => ?_⟩
    have hgrounded : s.proof.Grounded medium {} s.proof.size o.rule o.sources o.statement :=
      grounded_of_mem_ruleOffers hfound hoffers ho
    exact hgrounded.sources_lt
  | take hoffer hproof =>
    -- there is one line more, and the numbers of the others are the same
    refine ⟨h.proof.push hproof, fun i hi => ?_, fun o ho => absurd ho List.not_mem_nil⟩
    have hi := h.selected i hi
    rw [Proof.size_push hproof]
    exact Nat.lt_add_right _ hi
  | fill _ hproof =>
    have hsize := Proof.size_fill hproof
    exact ⟨h.proof.fill hproof, fun i hi => hsize ▸ h.selected i hi, fun o ho i hi => hsize ▸ h.offers o ho i hi⟩
  | delete hproof =>
    exact ⟨h.proof.remove hproof, fun i hi => absurd hi List.not_mem_nil, fun o ho => absurd ho List.not_mem_nil⟩

/-- A session is consistent at its start. -/
theorem consistent_start {premises : List String} {conclusion : String}
    (h : Session.start premises conclusion = .ok s) : s.Consistent := by
  obtain ⟨p, hp, rfl⟩ := map_eq_ok_iff.mp h
  exact ⟨Proof.citesAbove_of_parse hp, fun i hi => absurd hi List.not_mem_nil,
    fun o ho => absurd ho List.not_mem_nil⟩

/-! ## Commands in place -/

/-- A request to the proof of a session, in place. The session keeps the proof that the request leaves, refused or
    not. -/
def onProof (r : Proof.Request) : EStateM SessionError Session Unit := fun s =>
  match r.perform.run s.proof with
  | .ok _ proof => .ok () { s with proof }
  | .error refusal proof => .error (.proof refusal) { s with proof }

/-- A command made in place: what was assigned before a refusal stays assigned. -/
def perform (medium : Medium) : Command → EStateM SessionError Session String
  | .nothing => return ""
  | .select lines => do
    let s ← get
    let _ ← ofExcept (ofProof (lines.mapM s.proof.line))
    modify fun s => { s with selected := lines }
    return ""
  | .forms => do
    let s ← get
    if s.selected.isEmpty then
      throw .nothingSelected
    let (found, _) ← ofExcept (ofProof (s.proof.argumentForms medium s.selected {}))
    modify fun s => { s with offers := formOffers s.selected found }
    return (← get).displayOffers medium
  | .rules line path => do
    let s ← get
    let (found, _) ← ofExcept (ofProof (s.proof.replacementRules medium line path {}))
    let offers ← ofExcept (ruleOffers line found)
    modify fun s => { s with offers }
    return (← get).displayOffers medium
  | .take option => do
    let s ← get
    match s.offer? option with
    | none => throw (.noOption option)
    | some offer =>
      onProof (.push offer)
      modify fun s => { s with offers := [] }
      return (← get).display medium
  | .fill line filling => do
    onProof (.fill line filling)
    return (← get).display medium
  | .delete line => do
    onProof (.remove line)
    modify fun s => { s with selected := [] }
    modify fun s => { s with offers := [] }
    return (← get).display medium
  | .display => return (← get).display medium
  | .explain => return ((← get).proof.explain {}).text ++ "\n"
  | .help => return helpText
  | .leave => return ""

theorem ofExcept_run {α : Type} (x : Except SessionError α) (s : Session) :
    (ofExcept x : EStateM SessionError Session α).run s =
      match x with
      | .ok a => .ok a s
      | .error refusal => .error refusal s := by
  cases x <;> rfl

theorem onProof_run (h : s.proof.CitesAbove) (r : Proof.Request) :
    (onProof r).run s =
      match r.result s.proof with
      | .ok proof => .ok () { s with proof }
      | .error refusal => .error (.proof refusal) s := by
  show (match r.perform.run s.proof with
    | .ok _ proof => EStateM.Result.ok () { s with proof }
    | .error refusal proof => EStateM.Result.error (SessionError.proof refusal) { s with proof }) = _
  rw [r.perform_run h]
  cases r.result s.proof <;> rfl

/-- **A command in place comes to the same as the command**, where the lines of the proof are in order: it
    changes nothing before it is refused. -/
theorem perform_run (h : s.proof.CitesAbove) (c : Command) :
    (perform medium c).run s =
      match s.execute medium c with
      | .ok (s', output) => .ok output s'
      | .error refusal => .error refusal s := by
  cases c with
  | nothing | display | explain | help | leave => rfl
  | select lines =>
    unfold perform execute
    rw [EStateM.run_bind, EStateM.run_get]
    dsimp only
    cases lines.mapM s.proof.line <;> rfl
  | forms =>
    unfold perform execute
    rw [EStateM.run_bind, EStateM.run_get]
    dsimp only
    by_cases hsome : s.selected.isEmpty = true
    · simp only [if_pos hsome]
      rfl
    · simp only [if_neg hsome]
      cases s.proof.argumentForms medium s.selected {} <;> rfl
  | rules line path =>
    unfold perform execute
    rw [EStateM.run_bind, EStateM.run_get]
    dsimp only
    cases s.proof.replacementRules medium line path {} with
    | error refusal => rfl
    | ok found =>
      -- the offers are read before they are assigned
      rw [EStateM.run_bind, ofProof, ofExcept_run]
      dsimp only
      rw [EStateM.run_bind, ofExcept_run]
      dsimp only [bind, Except.bind]
      cases ruleOffers line found.1 <;> rfl
  | take option =>
    unfold perform execute
    rw [EStateM.run_bind, EStateM.run_get]
    dsimp only
    cases s.offer? option with
    | none => rfl
    | some offer =>
      dsimp only
      rw [EStateM.run_bind, onProof_run h]
      dsimp only [Proof.Request.result]
      cases s.proof.push offer <;> rfl
  | fill line filling =>
    unfold perform execute
    rw [EStateM.run_bind, onProof_run h]
    dsimp only [Proof.Request.result]
    cases s.proof.fill line filling <;> rfl
  | delete line =>
    unfold perform execute
    rw [EStateM.run_bind, onProof_run h]
    dsimp only [Proof.Request.result]
    cases s.proof.remove line <;> rfl

/-! ## Command lines in place -/

/-- A command line in place: what it prints, or nothing at the command to leave. -/
def obey (medium : Medium) (input : String) : EStateM SessionError Session (Option String) := do
  match ← ofExcept (Command.ofLine input) with
  | .leave => return none
  | c => return some (← perform medium c)

/-- **A command line in place comes to the same as the response to it**, where the lines of the proof are in
    order. -/
theorem obey_run (h : s.proof.CitesAbove) (input : String) :
    (obey medium input).run s =
      match s.respond medium input with
      | .ended => .ok none s
      | .done s' output => .ok (some output) s'
      | .refused refusal => .error refusal s := by
  unfold obey respond
  rw [EStateM.run_bind, ofExcept_run]
  cases Command.ofLine input with
  | error refusal => rfl
  | ok c =>
    cases c with
    | leave => rfl
    | _ =>
      dsimp only
      rw [EStateM.run_bind, perform_run h]
      generalize execute medium s _ = result
      cases result <;> rfl

/-- The session that command lines in place leave, refused or not. The command to leave ends the run. -/
def runInPlace (medium : Medium) (s : Session) : List String → Session
  | [] => s
  | input :: rest =>
    match (obey medium input).run s with
    | .ok none s' => s'
    | .ok (some _) s' => s'.runInPlace medium rest
    | .error _ s' => s'.runInPlace medium rest

/-- A run in place leads where the run leads. -/
theorem runInPlace_eq (h : s.Consistent) (inputs : List String) :
    s.runInPlace medium inputs = s.run medium inputs := by
  induction inputs generalizing s with
  | nil => rfl
  | cons input rest ih =>
    unfold runInPlace run
    rw [obey_run h.proof]
    cases hrespond : s.respond medium input with
    | ended => rfl
    | done s' output => exact ih (h.transition (transition_of_respond hrespond))
    | refused refusal => exact ih h

/-! ## After any command lines -/

/-- An option leads to no offer if it is not the number of one. -/
theorem offer?_eq_none_iff {option : String} :
    s.offer? option = none ↔ ¬∃ n, readNumber option = .ok (n + 1) ∧ n < s.offers.length := by
  unfold offer? readLine
  cases hnumber : readNumber option with
  | error cause => simp
  | ok n => cases n <;> simp

/-- An option is refused if it is not the number of an offer, and for no other reason. -/
theorem take_refused_iff (h : s.Consistent) (medium : Medium) {option : String} {refusal : SessionError} :
    s.execute medium (.take option) = .error refusal ↔ s.offer? option = none ∧ refusal = .noOption option := by
  unfold execute
  dsimp only
  cases hoffer : s.offer? option with
  | none => simp [eq_comm]
  | some offer =>
    -- what the offer cites is there
    have hpush : s.proof.push offer = .ok { s.proof with steps := s.proof.steps ++ [offer] } :=
      Proof.push_eq_ok_iff.mpr ⟨h.offers offer (mem_of_offer? hoffer), rfl⟩
    dsimp only
    rw [hpush]
    simp [ofProof, bind, Except.bind, pure, Except.pure]

/-- How command lines are obeyed: exactly when an option is refused, and that a command line in place comes to the
    same as the response to it, so that a refused one leaves the session as it was. -/
structure Obeys (medium : Medium) (s : Session) : Prop where
  take_iff : ∀ input option, Command.ofLine input = .ok (.take option) → ∀ refusal,
    s.respond medium input = .refused refusal ↔
      (¬∃ n, readNumber option = .ok (n + 1) ∧ n < s.offers.length) ∧ refusal = .noOption option
  done_iff : ∀ input output s',
    (obey medium input).run s = .ok (some output) s' ↔ s.respond medium input = .done s' output
  refused_iff : ∀ input refusal s',
    (obey medium input).run s = .error refusal s' ↔ s.respond medium input = .refused refusal ∧ s' = s

theorem Consistent.obeys (h : s.Consistent) : s.Obeys medium := by
  constructor
  case take_iff =>
    intro input option hinput refusal
    rw [← offer?_eq_none_iff, ← take_refused_iff h medium]
    unfold respond
    rw [hinput]
    dsimp only
    cases s.execute medium (.take option) <;> simp
  case done_iff =>
    intro input output s'
    rw [obey_run h.proof]
    cases s.respond medium input <;> simp [and_comm]
  case refused_iff =>
    intro input refusal s'
    rw [obey_run h.proof]
    cases s.respond medium input <;> simp [eq_comm]

/-- **After any command lines a session is consistent, and a refused command line changes nothing.** Command lines
    may be any whatever, and are obeyed in place: the lines that are selected and those that offers cite are lines
    of the proof, and so an option is refused only if it is not the number of an offer. -/
theorem runInPlace_consistent {premises : List String} {conclusion : String} {start : Session}
    (h : Session.start premises conclusion = .ok start) (medium : Medium) (inputs : List String) :
    start.runInPlace medium inputs = start.run medium inputs ∧ (start.runInPlace medium inputs).Consistent ∧
      (start.runInPlace medium inputs).Obeys medium := by
  have hstart := consistent_start h
  have hrun : (start.run medium inputs).Consistent := run_induction hstart Consistent.transition inputs
  rw [runInPlace_eq hstart]
  exact ⟨rfl, hrun, hrun.obeys⟩

/-- An option that went with a line that was removed, and a premise that is kept. -/
theorem runInPlace_consistent_removed :
    ∃ start inputs, Session.start ["A", "B"] "A v B" = .ok start ∧
      inputs = ["select 1", "forms", "take 1", "select 3 2", "forms", "delete 3", "take 1", "select 2 1", "forms",
        "delete 2"] ∧
      (start.runInPlace .plain inputs).Consistent ∧ (start.runInPlace .plain inputs).Obeys .plain ∧
      (start.runInPlace .plain inputs).selected = [1, 0] ∧
      (start.runInPlace .plain inputs).offers.map (·.sources) = [[1, 0]] := by
  have hstart : Session.start ["A", "B"] "A v B" =
      .ok ⟨⟨[.atom ⟨"A"⟩, .atom ⟨"B"⟩], [], .binary .disjunction (.atom ⟨"A"⟩) (.atom ⟨"B"⟩)⟩, [], []⟩ := rfl
  refine ⟨_, _, hstart, rfl, ?_, ?_, by decide +kernel, by decide +kernel⟩
  · exact (runInPlace_consistent hstart .plain _).2.1
  · exact (runInPlace_consistent hstart .plain _).2.2

end Session

end Sentential
