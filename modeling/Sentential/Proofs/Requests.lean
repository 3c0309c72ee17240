import Sentential.Proofs.Edits

/-!
# `Sentential.Proofs.Requests` — the order of lines, and what a proof refuses

A proof is changed by requests, and any request may come at any time: a step that cites what it likes, the
removal of any line, the filling of any line. Still the premises stand first, and every line cites only lines
above it. A step that is pushed has to cite lines that are there, and they are all above it; filling changes no
citation; and a line is removed only if no line cites it, so that renumbering keeps the sequence of the others
(`CitesAbove.push`, `CitesAbove.fill`, `CitesAbove.remove`).

The order of lines makes a shortcut possible. Nothing above a line can cite it, so whoever wants to remove the
line need not look there, for lines that cite it or for citations to renumber. `Request.perform` takes this
shortcut and changes the proof in place, one assignment after the other, where a refusal does not undo what was
assigned before it. On a proof whose lines are in order it comes to the same as the request itself
(`perform_run`): it finds the same citing line and changes nothing before it refuses.

## Contents
* `Line.cites`, `Proof.Cites`, `CitesAbove` — which line cites which
* `citingFrom?`, `citing?_eq_some_iff`, `citingFrom?_below` — the lowest line that cites another
* `Proof.Refuses` — exactly when a request is refused, and with which refusal
* `Request`, `Request.perform`, `perform_run` — requests, and requests in place
* `Proof.Ordered`, `afterAll_ordered` — after any requests the lines are in order
-/

namespace Sentential

/-- The line cites line `i`. -/
def Line.cites (l : Line) (i : Nat) : Bool :=
  match l.justification with
  | .premise => false
  | .rule _ sources => sources.contains i

theorem Line.cites_iff {l : Line} {i : Nat} :
    l.cites i = true ↔ ∃ rule sources, l.justification = .rule rule sources ∧ i ∈ sources := by
  unfold cites
  cases l.justification with
  | premise => simp
  | rule abbreviation sources => simp

namespace Proof

variable {p p' : Proof} {i j k n : Nat} {l : Line}

/-! ## Which line cites which -/

/-- The line at place `k` cites line `i`. -/
def Cites (p : Proof) (k i : Nat) : Prop :=
  ∃ l rule sources, p.lines[k]? = some l ∧ l.justification = .rule rule sources ∧ i ∈ sources

/-- Every line cites only lines above it. -/
def CitesAbove (p : Proof) : Prop := ∀ k i, p.Cites k i → i < k

theorem cites_iff : p.Cites k i ↔ ∃ l, p.lines[k]? = some l ∧ l.cites i = true := by
  unfold Cites
  refine exists_congr fun l => ?_
  rw [Line.cites_iff]
  constructor
  · rintro ⟨rule, sources, hl, hrule, hi⟩
    exact ⟨hl, rule, sources, hrule, hi⟩
  · rintro ⟨hl, rule, sources, hrule, hi⟩
    exact ⟨rule, sources, hl, hrule, hi⟩

/-- A line that cites another is a step. -/
theorem Cites.step (h : p.Cites k i) : p.premises.length ≤ k := by
  obtain ⟨l, rule, sources, hl, hrule, _⟩ := h
  by_cases hk : k < p.premises.length
  · rw [getElem?_lines_of_lt hk, Option.map_eq_some_iff] at hl
    obtain ⟨s, _, rfl⟩ := hl
    exact absurd hrule (by simp)
  · exact Nat.not_lt.mp hk

/-- A line that cites another is there. -/
theorem Cites.lt_size (h : p.Cites k i) : k < p.size := by
  obtain ⟨l, _, _, hl, _, _⟩ := h
  rw [← length_lines]
  exact (List.getElem?_eq_some_iff.mp hl).1

/-- A step cites its sources. -/
theorem cites_of_step {t : Step} (ht : p.steps[k]? = some t) (hi : i ∈ t.sources) :
    p.Cites (p.premises.length + k) i := by
  refine ⟨t.line, t.rule, t.sources, ?_, rfl, hi⟩
  rw [getElem?_lines_of_le (Nat.le_add_right _ k), Nat.add_sub_cancel_left, ht, Option.map_some]

/-! ## Lines in order stay in order -/

/-- A step that is pushed cites lines that are there, and stands below all of them. -/
theorem CitesAbove.push (h : p.CitesAbove) {t : Step} (hp' : p.push t = .ok p') : p'.CitesAbove := by
  obtain ⟨hsources, _⟩ := push_eq_ok_iff.mp hp'
  intro k i hcites
  obtain ⟨l, rule, sources, hl, hrule, hi⟩ := hcites
  rcases getElem?_lines_of_push hp' hl with hold | ⟨rfl, rfl⟩
  · exact h k i ⟨l, rule, sources, hold, hrule, hi⟩
  · obtain ⟨rfl, rfl⟩ := Justification.rule.inj hrule
    exact hsources i hi

/-- A line that is filled cites what it cited before. -/
theorem CitesAbove.fill (h : p.CitesAbove) {filling : Statement} (hp' : p.fill i filling = .ok p') :
    p'.CitesAbove := by
  intro k c hcites
  obtain ⟨l, rule, sources, hl, hrule, hc⟩ := hcites
  obtain ⟨old, hold, hjustification, _⟩ := getElem?_lines_of_fill hp' hl
  exact h k c ⟨old, rule, sources, hold, hjustification ▸ hrule, hc⟩

/-- A citation that is left stood between lines that are left, under the numbers that they had. -/
theorem exists_cites_of_remove (h : p.remove i = .ok (l, p')) {k' c' : Nat} (hcites : p'.Cites k' c') :
    ∃ k c, p.Cites k c ∧ c ≠ i ∧ renumber i k = k' ∧ renumber i c = c' := by
  obtain ⟨l', rule, sources', hl', hrule', hc'⟩ := hcites
  obtain ⟨k, old, sources, _, hk', hold, _, hrule, rfl, hcited⟩ := exists_rule_of_remove h hl' hrule'
  obtain ⟨c, hc, rfl⟩ := List.mem_map.mp hc'
  exact ⟨k, c, ⟨old, rule, sources, hold, hrule, hc⟩, hcited c hc, hk', rfl⟩

/-- The lines that are left keep their sequence. -/
theorem CitesAbove.remove (h : p.CitesAbove) (hp' : p.remove i = .ok (l, p')) : p'.CitesAbove := by
  intro k' c' hcites
  obtain ⟨k, c, hold, hne, rfl, rfl⟩ := exists_cites_of_remove hp' hcites
  exact renumber_lt_renumber (h k c hold) hne

/-- A proof without steps cites nothing. -/
theorem citesAbove_of_parse {premises : List String} {conclusion : String}
    (h : Proof.parse premises conclusion = .ok p) : p.CitesAbove := by
  intro k i hcites
  obtain ⟨l, rule, sources, hl, hrule, _⟩ := hcites
  rw [justification_of_parse h (List.mem_of_getElem? hl)] at hrule
  exact absurd hrule (by simp)

/-! ## The lowest line that cites another -/

/-- The lowest line that cites line `i`, of the lines from number `n` on. -/
def citingFrom? (p : Proof) (n i : Nat) : Option Nat :=
  ((p.lines.drop n).findIdx? (·.cites i)).map (n + ·)

theorem citingFrom?_eq_some_iff :
    p.citingFrom? n i = some k ↔ n ≤ k ∧ p.Cites k i ∧ ∀ j, n ≤ j → j < k → ¬p.Cites j i := by
  simp only [citingFrom?, Option.map_eq_some_iff, List.findIdx?_eq_some_iff_getElem, List.getElem_drop,
    cites_iff]
  constructor
  · rintro ⟨m, ⟨hm, hcites, hnone⟩, rfl⟩
    rw [List.length_drop] at hm
    refine ⟨Nat.le_add_right n m, ⟨_, List.getElem?_eq_getElem (by omega), hcites⟩, fun j hnj hjk => ?_⟩
    rintro ⟨l, hl, hli⟩
    obtain ⟨m', rfl⟩ := Nat.exists_eq_add_of_le hnj
    obtain ⟨_, rfl⟩ := List.getElem?_eq_some_iff.mp hl
    exact hnone m' (by omega) hli
  · rintro ⟨hnk, ⟨l, hl, hli⟩, hnone⟩
    obtain ⟨m, rfl⟩ := Nat.exists_eq_add_of_le hnk
    obtain ⟨hlt, rfl⟩ := List.getElem?_eq_some_iff.mp hl
    refine ⟨m, ⟨by rw [List.length_drop]; omega, hli, fun m' hm' hcites => ?_⟩, rfl⟩
    exact hnone (n + m') (Nat.le_add_right n m') (by omega) ⟨_, List.getElem?_eq_getElem (by omega), hcites⟩

/-- Only steps cite, so a search through the steps is one through all lines. -/
theorem citing?_eq : p.citing? i = p.citingFrom? p.premises.length i := by
  have hdrop : p.lines.drop p.premises.length = p.steps.map Step.line := by
    rw [lines, List.drop_left' (List.length_map ..)]
  rw [citing?, citingFrom?, hdrop, List.findIdx?_map]
  rfl

/-- The line that is found is the lowest of all that cite the other. -/
theorem citing?_eq_some_iff : p.citing? i = some k ↔ p.Cites k i ∧ ∀ j < k, ¬p.Cites j i := by
  rw [citing?_eq, citingFrom?_eq_some_iff]
  constructor
  · rintro ⟨_, hcites, hnone⟩
    exact ⟨hcites, fun j hj h => hnone j h.step hj h⟩
  · rintro ⟨hcites, hnone⟩
    exact ⟨hcites.step, hcites, fun j _ hj => hnone j hj⟩

/-- **Where lines are in order, it is enough to look below a line for those that cite it.** -/
theorem citingFrom?_below (h : p.CitesAbove) : p.citingFrom? (i + 1) i = p.citing? i := by
  refine Option.ext fun k => ?_
  rw [citingFrom?_eq_some_iff, citing?_eq_some_iff]
  constructor
  · rintro ⟨_, hcites, hnone⟩
    exact ⟨hcites, fun j hj hj' => hnone j (h j i hj') hj hj'⟩
  · rintro ⟨hcites, hnone⟩
    exact ⟨h k i hcites, hcites, fun j _ hj => hnone j hj⟩

/-! ## Refusals -/

theorem line_eq_error_iff {e : ProofError} : p.line i = .error e ↔ p.lines.length ≤ i ∧ e = .unknownLine i := by
  unfold line
  cases hl : p.lines[i]? with
  | none => simp [List.getElem?_eq_none_iff.mp hl, eq_comm]
  | some l =>
    have hlt := (List.getElem?_eq_some_iff.mp hl).1
    simp [Nat.not_le.mpr hlt]

/-- A step is refused for the first line that it cites and that is not there. -/
theorem push_eq_error_iff {t : Step} {e : ProofError} :
    p.push t = .error e ↔ ∃ before cited after, t.sources = before ++ cited :: after ∧
      (∀ j ∈ before, j < p.lines.length) ∧ p.lines.length ≤ cited ∧
      e = .forwardReference p.lines.length cited := by
  unfold push
  rw [← length_lines]
  constructor
  · intro h
    split at h
    · rename_i cited hfind
      obtain ⟨hcited, before, after, hsources, hbefore⟩ := List.find?_eq_some_iff_append.mp hfind
      refine ⟨before, cited, after, hsources, fun j hj => ?_, of_decide_eq_true hcited, (Except.error.inj h).symm⟩
      simpa using hbefore j hj
    · exact absurd h (by simp)
  · rintro ⟨before, cited, after, hsources, hbefore, hcited, rfl⟩
    have hfind : t.sources.find? (p.lines.length ≤ ·) = some cited := by
      rw [List.find?_eq_some_iff_append]
      refine ⟨decide_eq_true hcited, before, after, hsources, fun j hj => ?_⟩
      simpa using hbefore j hj
    rw [hfind]

/-- A line is kept if it is a premise or if some line cites it, and the lowest such line is named. -/
theorem remove_eq_error_iff {e : ProofError} :
    p.remove i = .error e ↔ (p.lines.length ≤ i ∧ e = .unknownLine i) ∨
      (i < p.premises.length ∧ e = .premiseRemoval i) ∨
      (p.premises.length ≤ i ∧ i < p.lines.length ∧
        ∃ k, p.Cites k i ∧ (∀ j < k, ¬p.Cites j i) ∧ e = .lineInUse i k) := by
  unfold remove
  cases hl : p.line i with
  | error refusal =>
    obtain ⟨hi, rfl⟩ := line_eq_error_iff.mp hl
    have hpremise : ¬i < p.premises.length := by
      rw [length_lines, size] at hi
      omega
    simp [hi, hpremise, Nat.not_lt.mpr hi, eq_comm]
  | ok l =>
    have hi : i < p.lines.length := (List.getElem?_eq_some_iff.mp (line_eq_ok_iff.mp hl)).1
    by_cases hpremise : i < p.premises.length
    · simp [hpremise, Nat.not_le.mpr hi, Nat.not_le.mpr hpremise, eq_comm]
    · simp only [hpremise, Nat.not_le.mpr hi, Nat.not_lt.mp hpremise, hi, false_and, true_and, false_or,
        if_false, ← and_assoc, ← citing?_eq_some_iff]
      cases p.citing? i <;> simp [eq_comm]

/-- A line is not filled if it has no placeholder. -/
theorem fill_eq_error_iff {filling : Statement} {e : ProofError} :
    p.fill i filling = .error e ↔ (p.lines.length ≤ i ∧ e = .unknownLine i) ∨
      ∃ l, p.lines[i]? = some l ∧ l.statement.hasPlaceholder = false ∧ e = .nothingToFill i := by
  unfold fill
  cases hl : p.line i with
  | error refusal =>
    obtain ⟨hi, rfl⟩ := line_eq_error_iff.mp hl
    simp only [hi, List.getElem?_eq_none_iff.mpr hi, true_and, reduceCtorEq, false_and, exists_false, or_false,
      Except.error.injEq]
    exact eq_comm
  | ok l =>
    rw [line_eq_ok_iff] at hl
    have hi : i < p.lines.length := (List.getElem?_eq_some_iff.mp hl).1
    simp only [hl, Nat.not_le.mpr hi, false_and, false_or, Option.some.injEq, exists_eq_left']
    cases l.statement.hasPlaceholder <;> simp [eq_comm]

/-! ## Requests in place -/

/-- A request to change a proof. -/
inductive Request where
  | push (step : Step)
  | remove (line : Nat)
  | fill (line : Nat) (filling : Statement)

namespace Request

/-- The proof after a request, unless it is refused. -/
def result (p : Proof) : Request → Except ProofError Proof
  | push t => p.push t
  | remove i => (p.remove i).map Prod.snd
  | fill i filling => p.fill i filling

/-- A request made in place: what was assigned before a refusal stays assigned. To remove a line, only the lines
    below it are searched for one that cites it, and only their citations are renumbered. -/
def perform : Request → EStateM ProofError Proof Unit
  | push t => do
    let p ← get
    match t.sources.find? (p.size ≤ ·) with
    | some cited => throw (.forwardReference p.size cited)
    | none => set { p with steps := p.steps ++ [t] }
  | remove i => do
    let p ← get
    let _ ← ofExcept (p.line i)
    if i < p.premises.length then
      throw (.premiseRemoval i)
    match p.citingFrom? (i + 1) i with
    | some citing => throw (.lineInUse i citing)
    | none =>
      let place := i - p.premises.length
      modify fun p => { p with steps := p.steps.eraseIdx place }
      modify fun p => { p with steps := p.steps.take place ++ (p.steps.drop place).map (renumberStep i) }
  | fill i filling => do
    let p ← get
    let l ← ofExcept (p.line i)
    if l.statement.hasPlaceholder then
      let filled := Draft.ofStatement (l.statement.fill filling)
      set { p with steps := p.steps.modify (i - p.premises.length) fun t => { t with statement := filled } }
    else throw (.nothingToFill i)

end Request

/-- Lines above the one that is gone keep their numbers. -/
theorem map_renumber_of_lt {sources : List Nat} (h : ∀ j ∈ sources, j < i) : sources.map (renumber i) = sources := by
  refine (List.map_congr_left fun j hj => ?_).trans (List.map_id _)
  exact if_neg (Nat.not_lt.mpr (Nat.le_of_lt (h j hj)))

/-- A step that cites only lines above the one that is gone keeps its citations. -/
theorem renumberStep_of_lt {t : Step} (h : ∀ j ∈ t.sources, j < i) : renumberStep i t = t := by
  unfold renumberStep
  rw [map_renumber_of_lt h]

/-- **Where lines are in order, it is enough to renumber the steps below the one that is gone.** -/
theorem renumber_below (h : p.CitesAbove) {place : Nat} (hi : p.premises.length + place = i) :
    (p.steps.eraseIdx place).take place ++ ((p.steps.eraseIdx place).drop place).map (renumberStep i) =
      (p.steps.eraseIdx place).map (renumberStep i) := by
  have habove : ((p.steps.eraseIdx place).take place).map (renumberStep i) =
      (p.steps.eraseIdx place).take place := by
    refine (List.map_congr_left fun t ht => ?_).trans (List.map_id _)
    -- the step is above the one that is gone, and its citations are above both
    rw [List.take_eraseIdx_eq_take_of_le _ _ _ (Nat.le_refl place)] at ht
    obtain ⟨m, hm, rfl⟩ := List.mem_take_iff_getElem.mp ht
    refine renumberStep_of_lt fun j hj => ?_
    have hcited := h _ j (cites_of_step (List.getElem?_eq_getElem (by omega)) hj)
    omega
  calc (p.steps.eraseIdx place).take place ++ ((p.steps.eraseIdx place).drop place).map (renumberStep i)
      = ((p.steps.eraseIdx place).take place).map (renumberStep i) ++
          ((p.steps.eraseIdx place).drop place).map (renumberStep i) := by rw [habove]
    _ = (p.steps.eraseIdx place).map (renumberStep i) := by rw [← List.map_append, List.take_append_drop]

/-- **A request in place comes to the same as the request**, where lines are in order. -/
theorem Request.perform_run (h : p.CitesAbove) (r : Request) :
    r.perform.run p =
      match r.result p with
      | .ok p' => .ok () p'
      | .error e => .error e p := by
  cases r with
  | push t =>
    unfold perform result Proof.push
    rw [EStateM.run_bind, EStateM.run_get]
    dsimp only
    cases t.sources.find? (p.size ≤ ·) <;> rfl
  | remove i =>
    unfold perform result Proof.remove
    rw [EStateM.run_bind, EStateM.run_get]
    dsimp only
    rw [citingFrom?_below h]
    cases p.line i with
    | error e => rfl
    | ok l =>
      by_cases hi : i < p.premises.length
      · simp only [if_pos hi]
        rfl
      · simp only [if_neg hi]
        cases p.citing? i with
        | some citing => rfl
        | none =>
          rw [← renumber_below h (Nat.add_sub_cancel' (Nat.not_lt.mp hi))]
          rfl
  | fill i filling =>
    unfold perform result Proof.fill
    rw [EStateM.run_bind, EStateM.run_get]
    dsimp only
    cases p.line i with
    | error e => rfl
    | ok l => cases hl : l.statement.hasPlaceholder <;> simp [hl, ofExcept]

/-! ## After any requests -/

/-- The proof after a request in place, refused or not. -/
def after (p : Proof) (r : Request) : Proof :=
  match r.perform.run p with
  | .ok _ p' => p'
  | .error _ p' => p'

/-- The proof after requests in place. -/
def afterAll (p : Proof) (requests : List Request) : Proof := requests.foldl after p

/-- The premises stand first, every other line was inferred, and lines cite only lines above them. -/
structure Ordered (p : Proof) (premises : List Statement) : Prop where
  premises_first : p.lines.take premises.length = premises.map fun s => ⟨Draft.ofStatement s, .premise⟩
  inferred : ∀ (k : Nat) (l : Line), premises.length ≤ k → p.lines[k]? = some l →
    ∃ rule sources, l.justification = .rule rule sources
  citesAbove : p.CitesAbove

/-- Exactly when a request is refused, and with which refusal; and that a request in place is refused with it as
    well, and then leaves the proof as it was. -/
structure Refuses (p : Proof) (premises : List Statement) : Prop where
  /-- The first line cited that is not there is named. -/
  push_iff : ∀ t e, p.push t = .error e ↔ ∃ before cited after, t.sources = before ++ cited :: after ∧
    (∀ j ∈ before, j < p.lines.length) ∧ p.lines.length ≤ cited ∧ e = .forwardReference p.lines.length cited
  /-- The lowest line that cites the one to be removed is named. -/
  remove_iff : ∀ i e, p.remove i = .error e ↔ (p.lines.length ≤ i ∧ e = .unknownLine i) ∨
    (i < premises.length ∧ e = .premiseRemoval i) ∨
    (premises.length ≤ i ∧ i < p.lines.length ∧
      ∃ k, p.Cites k i ∧ (∀ j < k, ¬p.Cites j i) ∧ e = .lineInUse i k)
  fill_iff : ∀ i filling e, p.fill i filling = .error e ↔ (p.lines.length ≤ i ∧ e = .unknownLine i) ∨
    ∃ l, p.lines[i]? = some l ∧ l.statement.hasPlaceholder = false ∧ e = .nothingToFill i
  perform_ok_iff : ∀ (r : Request) (p' : Proof), r.perform.run p = .ok () p' ↔ r.result p = .ok p'
  perform_error_iff : ∀ (r : Request) (e : ProofError) (p' : Proof),
    r.perform.run p = .error e p' ↔ r.result p = .error e ∧ p' = p

/-- A request that is not refused keeps lines in order, and the premises as they are. -/
theorem CitesAbove.result (h : p.CitesAbove) {r : Request} (hp' : r.result p = .ok p') :
    p'.CitesAbove ∧ p'.premises = p.premises := by
  cases r with
  | push t =>
    obtain ⟨_, rfl⟩ := push_eq_ok_iff.mp hp'
    exact ⟨h.push hp', rfl⟩
  | remove i =>
    obtain ⟨⟨l, _⟩, hremove, rfl⟩ := map_eq_ok_iff.mp hp'
    obtain ⟨_, _, _, heq⟩ := remove_eq_ok_iff.mp hremove
    exact ⟨h.remove hremove, by rw [heq]⟩
  | fill i filling =>
    obtain ⟨_, _, _, _, heq⟩ := fill_eq_ok_iff.mp hp'
    exact ⟨h.fill hp', by rw [heq]⟩

/-- So does any request in place. -/
theorem CitesAbove.after (h : p.CitesAbove) (r : Request) :
    (p.after r).CitesAbove ∧ (p.after r).premises = p.premises := by
  unfold Proof.after
  rw [r.perform_run h]
  cases hp' : r.result p with
  | ok p' => exact h.result hp'
  | error e => exact ⟨h, rfl⟩

/-- Any number of requests in place keeps lines in order, and the premises as they are. -/
theorem CitesAbove.afterAll (h : p.CitesAbove) (requests : List Request) :
    (p.afterAll requests).CitesAbove ∧ (p.afterAll requests).premises = p.premises := by
  induction requests generalizing p with
  | nil => exact ⟨h, rfl⟩
  | cons r rest ih =>
    obtain ⟨hafter, hpremises⟩ := h.after r
    obtain ⟨hall, hsame⟩ := ih hafter
    exact ⟨hall, hsame.trans hpremises⟩

theorem CitesAbove.ordered (h : p.CitesAbove) : p.Ordered p.premises := by
  constructor
  case premises_first => exact List.take_left' (List.length_map ..)
  case inferred =>
    intro k l hk hl
    rw [getElem?_lines_of_le hk, Option.map_eq_some_iff] at hl
    obtain ⟨t, _, rfl⟩ := hl
    exact ⟨t.rule, t.sources, rfl⟩
  case citesAbove => exact h

theorem CitesAbove.refuses (h : p.CitesAbove) : p.Refuses p.premises := by
  constructor
  case push_iff => exact fun t e => push_eq_error_iff
  case remove_iff => exact fun i e => remove_eq_error_iff
  case fill_iff => exact fun i filling e => fill_eq_error_iff
  case perform_ok_iff =>
    intro r p'
    rw [r.perform_run h]
    cases r.result p <;> simp
  case perform_error_iff =>
    intro r e p'
    rw [r.perform_run h]
    cases r.result p <;> simp [eq_comm]

/-- **After any requests the lines are in order, and exactly those requests are refused that would end it.**
    Requests may be any whatever, and are made in place: the premises that were read stand first, every other line
    was inferred from lines above it, and a request that is refused leaves the proof as it was. -/
theorem afterAll_ordered {premises : List String} {conclusion : String} {start : Proof}
    (h : Proof.parse premises conclusion = .ok start) (requests : List Request) :
    List.Forall₂ (fun text s => Statement.parse text = .ok s) premises start.premises ∧
      (start.afterAll requests).Ordered start.premises ∧ (start.afterAll requests).Refuses start.premises := by
  obtain ⟨hread, _, _⟩ := parse_ok_iff.mp h
  obtain ⟨hall, hpremises⟩ := (citesAbove_of_parse h).afterAll requests
  rw [← hpremises]
  exact ⟨hpremises ▸ hread, hall.ordered, hall.refuses⟩

/-- A line that is cited, a citation that leads nowhere, and a line that is filled after it was cited. -/
theorem afterAll_ordered_cited :
    ∃ start requests, Proof.parse ["A"] "A v B" = .ok start ∧
      requests = [.push ⟨.binary .disjunction (.atom (some ⟨"A"⟩)) (.atom none), "Add", [0]⟩,
        .push ⟨.binary .disjunction (.atom none) (.atom (some ⟨"A"⟩)), "Com", [1]⟩, .remove 1,
        .push ⟨.atom (some ⟨"B"⟩), "DS", [2, 7, 9]⟩, .fill 1 (.atom ⟨"B"⟩)] ∧
      (start.afterAll requests).Ordered start.premises ∧ (start.afterAll requests).Refuses start.premises ∧
      (start.afterAll requests).remove 1 = .error (.lineInUse 1 2) := by
  have hstart : Proof.parse ["A"] "A v B" =
      .ok ⟨[.atom ⟨"A"⟩], [], .binary .disjunction (.atom ⟨"A"⟩) (.atom ⟨"B"⟩)⟩ := rfl
  refine ⟨_, _, hstart, rfl, ?_, ?_, by decide +kernel⟩
  · exact (afterAll_ordered hstart _).2.1
  · exact (afterAll_ordered hstart _).2.2

end Proof

end Sentential
