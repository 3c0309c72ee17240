import Sentential.Proofs.Replacement
import Sentential.Proofs.Runs

/-!
# `Sentential.Proofs.Soundness` — what is proved follows from the premises

A draft **follows** from premises if they entail it however its placeholders are filled. Every line of a
proof follows from the premises, and so does every offer. An offer may be taken much later, when lines have
been filled or removed, and therefore the invariant speaks of the premises alone: they never change, whereas
the lines that an offer was inferred from may.

## Contents
* `Draft.Follows` — a draft that premises entail
* `Proof.Sound` — every line follows; kept by every change of a proof
* `Proof.follows_of_mem_argumentForms`, `Proof.follows_of_mem_ruleOffers` — what searches find follows
* `Session.Sound`, `Session.Sound.transition` — the invariant of sessions
* `Session.run_sound` — every state that a session reaches is sound
-/

namespace Sentential

/-! ## Drafts that follow -/

/-- The draft can be written, and the premises entail it however it is filled. -/
structure Draft.Follows (premises : List Statement) (d : Draft) : Prop where
  writable : d.Writable
  entails : ∀ filling, Statement.Entails premises (d.fill filling)

theorem Draft.follows_ofStatement {premises : List Statement} {f : Statement} :
    (ofStatement f).Follows premises ↔ f.Writable ∧ Statement.Entails premises f := by
  constructor
  · intro h
    refine ⟨writable_ofStatement.mp h.writable, ?_⟩
    have hf := h.entails f
    rwa [fill_ofStatement] at hf
  · rintro ⟨hwritable, hf⟩
    refine ⟨writable_ofStatement.mpr hwritable, ?_⟩
    intro filling
    rwa [fill_ofStatement]

/-- What follows still does when it is filled. -/
theorem Draft.Follows.fill {premises : List Statement} {d : Draft} (h : d.Follows premises)
    {filling : Statement} (hfilling : filling.Writable) : (ofStatement (d.fill filling)).Follows premises := by
  refine follows_ofStatement.mpr ⟨fun s hs => ?_, h.entails filling⟩
  rcases mem_leaves_fill.mp hs with hs | ⟨_, hs⟩
  · exact h.writable s hs
  · exact hfilling s hs

namespace Proof

/-! ## Proofs -/

/-- Every line follows from the premises. -/
def Sound (p : Proof) : Prop := ∀ l ∈ p.lines, l.statement.Follows p.premises

/-- Premises and conclusion are the same. -/
def SameGoal (p p' : Proof) : Prop := p'.premises = p.premises ∧ p'.conclusion = p.conclusion

variable {p p' : Proof} {i : Nat}

/-- A step follows from the premises. -/
theorem Sound.step (h : p.Sound) {t : Step} (ht : t ∈ p.steps) : t.statement.Follows p.premises :=
  h t.line (mem_lines_iff.mpr (.inr ⟨t, ht, rfl⟩))

/-- A finished line is entailed. -/
theorem Sound.statement (h : p.Sound) {s : Statement} (hs : p.statement i = .ok s) :
    s.Writable ∧ Statement.Entails p.premises s := by
  obtain ⟨l, hl, heq⟩ := statement_eq_ok_iff.mp hs
  have hfollows := h l (List.mem_of_getElem? hl)
  rw [heq] at hfollows
  exact Draft.follows_ofStatement.mp hfollows

/-- Other steps that follow keep a proof sound. -/
theorem Sound.steps (h : p.Sound) {steps : List Step}
    (hsteps : ∀ t ∈ steps, t.statement.Follows p.premises) : Sound { p with steps } := by
  intro l hl
  rcases mem_lines_iff.mp hl with hpremise | ⟨t, ht, rfl⟩
  · exact h l (mem_lines_iff.mpr (.inl hpremise))
  · exact hsteps t ht

theorem Sound.push (h : p.Sound) {t : Step} (ht : t.statement.Follows p.premises)
    (hp' : p.push t = .ok p') : p'.Sound ∧ p.SameGoal p' := by
  obtain ⟨_, rfl⟩ := push_eq_ok_iff.mp hp'
  refine ⟨h.steps fun u hu => ?_, rfl, rfl⟩
  rcases List.mem_append.mp hu with hu | hu
  · exact h.step hu
  · obtain rfl := List.mem_singleton.mp hu
    exact ht

theorem Sound.remove (h : p.Sound) {l : Line} (hp' : p.remove i = .ok (l, p')) :
    p'.Sound ∧ p.SameGoal p' := by
  obtain ⟨_, _, _, rfl⟩ := remove_eq_ok_iff.mp hp'
  refine ⟨h.steps fun u hu => ?_, rfl, rfl⟩
  obtain ⟨t, ht, rfl⟩ := List.mem_map.mp hu
  have hstep := h.step (List.mem_of_mem_eraseIdx ht)
  exact hstep

theorem Sound.fill (h : p.Sound) {filling : Statement} (hfilling : filling.Writable)
    (hp' : p.fill i filling = .ok p') : p'.Sound ∧ p.SameGoal p' := by
  obtain ⟨t, _, ht, _, rfl⟩ := fill_eq_ok_iff.mp hp'
  refine ⟨h.steps fun u hu => ?_, rfl, rfl⟩
  rcases List.mem_or_eq_of_mem_set hu with hu | rfl
  · exact h.step hu
  · exact (h.step (List.mem_of_getElem? ht)).fill hfilling

/-- A proof is sound at its beginning. -/
theorem sound_of_parse {premises : List String} {conclusion : String}
    (h : Proof.parse premises conclusion = .ok p) : p.Sound := by
  obtain ⟨hpremises, hsteps, _⟩ := parse_ok_iff.mp h
  intro l hl
  rcases mem_lines_iff.mp hl with ⟨s, hs, rfl⟩ | ⟨t, ht, _⟩
  · -- a premise was read, so it can be written
    obtain ⟨text, _, htext⟩ := exists_of_mem_right hpremises hs
    exact Draft.follows_ofStatement.mpr ⟨Statement.writable_of_parse htext, .of_mem hs⟩
  · rw [hsteps] at ht
    exact absurd ht (by simp)

/-- The conclusion of a complete proof is entailed. -/
theorem Sound.conclusion (h : p.Sound) (hcomplete : p.isComplete = true) :
    Statement.Entails p.premises p.conclusion := by
  obtain ⟨l, hl, heq⟩ := isComplete_iff.mp hcomplete
  have hfollows := h l (List.mem_of_getLast? hl)
  rw [heq] at hfollows
  exact (Draft.follows_ofStatement.mp hfollows).2

/-! ## What is found follows -/

/-- **What the usual forms infer from lines of a sound proof follows.** -/
theorem follows_of_mem_argumentForms (h : p.Sound) {medium : Medium} {selected : List Nat}
    {e e' : Explanation} {found : List FormMatch}
    (hfound : p.argumentForms medium selected e = .ok (found, e')) {m : FormMatch} (hm : m ∈ found)
    {d : Draft} (hd : d ∈ m.derived) : d.Follows p.premises := by
  obtain ⟨statements, hstatements, hsearch⟩ := argumentForms_eq_ok_iff.mp hfound
  have hsound : ∀ s ∈ statements, s.Writable ∧ Statement.Entails p.premises s := by
    intro s hs
    obtain ⟨i, _, hi⟩ := exists_of_mem_right (statements_eq_ok_iff.mp hstatements) hs
    exact h.statement hi
  obtain ⟨rfl, _⟩ := Prod.mk.inj hsearch
  obtain ⟨form, hform, hmatch⟩ := List.mem_filterMap.mp hm
  have hvalid := Catalogue.standardForms_valid form (List.mem_of_mem_filter hform)
  refine ⟨?_, ?_⟩
  · intro y hy
    obtain ⟨s, hs, hys⟩ := ArgumentForm.mem_leaves_of_mem_derived hmatch hd hy
    exact (hsound s hs).1 y hys
  · intro filling
    exact (hvalid.entails hmatch hd filling).trans fun s hs => (hsound s hs).2

/-- **What the usual rules make of a line of a sound proof follows**, also once it is read again. -/
theorem follows_of_mem_ruleOffers (h : p.Sound) {medium : Medium} {line : Nat} {path : Path}
    {e e' : Explanation} {found : List RuleMatch} {offers : List Offer}
    (hfound : p.replacementRules medium line path e = .ok (found, e'))
    (hoffers : Session.ruleOffers line found = .ok offers) {o : Offer} (ho : o ∈ offers) :
    o.statement.Follows p.premises := by
  obtain ⟨s, hs, hsearch⟩ := replacementRules_eq_ok_iff.mp hfound
  obtain ⟨hwritable, hentails⟩ := h.statement hs
  obtain ⟨m, hm, _, hspliced, f, hread, rfl⟩ := Session.mem_ruleOffers hoffers ho
  obtain ⟨hmap, hderived⟩ := rewritesTo_of_mem_found hsearch hm
  rw [hmap] at hspliced
  obtain ⟨d, hd, rfl⟩ := List.mem_map.mp hspliced
  obtain ⟨whole, hwhole⟩ := hderived d hd
  -- the offer is what was read, and that is the statement that was printed
  obtain rfl := Except.ok.inj ((hwhole.parse hwritable).symm.trans hread)
  exact Draft.follows_ofStatement.mpr ⟨hwhole.writable hwritable, hentails.congr hwhole.equivalent⟩

end Proof

namespace Session

/-! ## Sessions -/

/-- The proof has the goal of the session's start, and its lines and all offers follow from the premises. -/
structure Sound (start s : Session) : Prop where
  goal : start.proof.SameGoal s.proof
  proof : s.proof.Sound
  offers : ∀ o ∈ s.offers, o.statement.Follows s.proof.premises

variable {start s s' : Session} {medium : Medium}

/-- With the goal kept and the proof sound, old offers follow. -/
theorem Sound.change (h : Sound start s) {p : Proof} (selected : List Nat)
    (hp : p.Sound ∧ s.proof.SameGoal p) : Sound start ⟨p, selected, s.offers⟩ := by
  obtain ⟨hsound, hpremises, hconclusion⟩ := hp
  refine ⟨⟨hpremises.trans h.goal.1, hconclusion.trans h.goal.2⟩, hsound, ?_⟩
  intro o ho
  rw [hpremises]
  exact h.offers o ho

/-- **Every transition keeps a session sound.** -/
theorem Sound.transition (h : Sound start s) (ht : Transition medium s s') : Sound start s' := by
  cases ht with
  | print => exact h
  | select _ => exact ⟨h.goal, h.proof, h.offers⟩
  | forms _ hfound =>
    refine ⟨h.goal, h.proof, ?_⟩
    intro o ho
    obtain ⟨m, hm, d, hd, rfl⟩ := mem_formOffers ho
    exact Proof.follows_of_mem_argumentForms h.proof hfound hm hd
  | rules hfound hoffers =>
    exact ⟨h.goal, h.proof, fun o ho => Proof.follows_of_mem_ruleOffers h.proof hfound hoffers ho⟩
  | take hoffer hproof =>
    -- the lines that the offer was inferred from may be gone; it follows from the premises all the same
    obtain ⟨hgoal, hsound, _⟩ := h.change s.selected (h.proof.push (h.offers _ hoffer) hproof)
    exact ⟨hgoal, hsound, by simp⟩
  | fill hfilling hproof => exact h.change s.selected (h.proof.fill hfilling hproof)
  | delete hproof =>
    obtain ⟨hgoal, hsound, _⟩ := h.change [] (h.proof.remove hproof)
    exact ⟨hgoal, hsound, by simp⟩

/-- A session is sound at its start. -/
theorem sound_start {premises : List String} {conclusion : String}
    (h : Session.start premises conclusion = .ok start) : Sound start start := by
  obtain ⟨p, hp, rfl⟩ := map_eq_ok_iff.mp h
  exact ⟨⟨rfl, rfl⟩, Proof.sound_of_parse hp, by simp⟩

/-- **Soundness of proof sessions.** Whatever command lines a session is given, the premises and the
    conclusion are those of its start, and every line of the proof, however it is filled, is true under every
    interpretation that makes the premises true and assigns the symbols of the line. So the premises of a
    complete proof entail its conclusion. -/
theorem run_sound {premises : List String} {conclusion : String}
    (h : Session.start premises conclusion = .ok start) (medium : Medium) (inputs : List String) :
    start.proof.SameGoal (start.run medium inputs).proof ∧
      (∀ l ∈ (start.run medium inputs).proof.lines, ∀ (x : Statement) (i : Interpretation),
        i.Assigns (l.statement.fill x) → (∀ p ∈ start.proof.premises, i.evaluate p = some true) →
        i.evaluate (l.statement.fill x) = some true) ∧
      ((start.run medium inputs).proof.isComplete = true →
        ¬∃ i : Interpretation, (∀ p ∈ start.proof.premises, i.evaluate p = some true) ∧
          i.evaluate start.proof.conclusion = some false) := by
  have hsound : Sound start (start.run medium inputs) :=
    run_induction (sound_start h) (fun hs ht => hs.transition ht) inputs
  obtain ⟨hpremises, hconclusion⟩ := hsound.goal
  refine ⟨hsound.goal, ?_, ?_⟩
  · intro l hl x i hi htrue
    have hentails := (hsound.proof l hl).entails x
    rw [hpremises] at hentails
    exact hentails.evaluate hi htrue
  · rintro hcomplete ⟨i, htrue, hfalse⟩
    have hentails := hsound.proof.conclusion hcomplete
    rw [hpremises, hconclusion] at hentails
    exact hentails.not_refuted htrue hfalse

/-- Addition, and what it leaves open filled afterwards. -/
theorem run_sound_addition :
    ∃ start, Session.start ["A"] "A v B" = .ok start ∧
      (start.run .plain ["select 1", "forms", "take 1", "fill 2 B"]).proof.isComplete = true ∧
      ¬∃ i : Interpretation, (∀ p ∈ start.proof.premises, i.evaluate p = some true) ∧
        i.evaluate start.proof.conclusion = some false := by
  have hstart : Session.start ["A"] "A v B" =
      .ok ⟨⟨[.atom ⟨"A"⟩], [], .binary .disjunction (.atom ⟨"A"⟩) (.atom ⟨"B"⟩)⟩, [], []⟩ := rfl
  refine ⟨_, hstart, ?_, fun hrefuted => ?_⟩
  · decide +kernel
  · exact (run_sound hstart .plain ["select 1", "forms", "take 1", "fill 2 B"]).2.2 (by decide +kernel) hrefuted

end Session

end Sentential
