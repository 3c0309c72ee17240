import Sentential.Proofs.Lines
import Sentential.Proofs.Printing
import Sentential.Session.Basic

/-!
# `Sentential.Proofs.Runs` — runs of a session

What command lines do to a session is little, and is listed once (`Session.Transition`): whatever a command
line that is not refused leads to is one of these transitions. A run over command lines leaves a refused one
out and stops at the command to leave. So a property of sessions that every transition keeps holds after any
run (`run_induction`), and none of its proofs looks at commands again.

## Contents
* `Session.Transition` — what a command does
* `Command.writable_of_ofLine` — what is filled in can be written
* `mem_formOffers`, `mem_ruleOffers` — where offers come from
* `transition_of_execute`, `transition_of_respond` — every response is a transition
* `Session.run`, `run_induction` — runs over command lines
-/

namespace Sentential

/-! ## Command lines -/

namespace Command

variable {line : Nat} {filling : Statement}

/-- What is filled in was read, and so can be written. -/
theorem writable_of_fillOf {arguments : String} (h : fillOf arguments = .ok (.fill line filling)) :
    filling.Writable := by
  unfold fillOf at h
  split at h
  · exact absurd h (by simp)
  · obtain ⟨_, _, h⟩ := bind_eq_ok_iff.mp h
    dsimp only at h
    split at h
    · rename_i s hs
      obtain ⟨_, rfl⟩ := Command.fill.inj (Except.ok.inj h)
      exact Statement.writable_of_parse hs
    · exact absurd h (by simp)

theorem rulesOf_ne_fill {arguments : List String} : rulesOf arguments ≠ .ok (.fill line filling) := by
  intro h
  unfold rulesOf at h
  split at h
  · exact absurd h (by simp)
  · obtain ⟨_, _, h⟩ := bind_eq_ok_iff.mp h
    obtain ⟨_, _, h⟩ := bind_eq_ok_iff.mp h
    exact absurd (Except.ok.inj h) (by simp)

/-- What a command line asks to fill in can be written. -/
theorem writable_of_ofLine {input : String} (h : ofLine input = .ok (.fill line filling)) :
    filling.Writable := by
  have hmap : ∀ {α : Type} {x : Except SessionError α} {f : α → Command},
      (∀ a, f a ≠ .fill line filling) → x.map f ≠ .ok (.fill line filling) := by
    intro α x f hf hx
    obtain ⟨a, _, ha⟩ := map_eq_ok_iff.mp hx
    exact hf a ha
  unfold ofLine at h
  dsimp only at h
  -- one case for each name of a command; the arguments of `fill` are the only ones that matter
  split at h
  · exact absurd h (by simp)
  · exact absurd h (hmap (by simp))
  · exact absurd h (by simp)
  · exact absurd h rulesOf_ne_fill
  · exact absurd h (by simp)
  · exact writable_of_fillOf h
  · exact absurd h (hmap (by simp))
  all_goals exact absurd h (by simp)

end Command

namespace Session

/-! ## Transitions -/

/-- What a command does to a session, if it is not refused. -/
inductive Transition (medium : Medium) (s : Session) : Session → Prop where
  /-- It only prints. -/
  | print : Transition medium s s
  /-- It selects lines that are there. -/
  | select {selected : List Nat} (hselected : ∀ i ∈ selected, i < s.proof.size) :
    Transition medium s { s with selected }
  /-- It offers what the forms infer from the selected lines. -/
  | forms {found : List FormMatch} {e : Explanation} (hsome : s.selected ≠ [])
    (hfound : s.proof.argumentForms medium s.selected {} = .ok (found, e)) :
    Transition medium s { s with offers := formOffers s.selected found }
  /-- It offers what the rules make of a line. -/
  | rules {line : Nat} {path : Path} {found : List RuleMatch} {e : Explanation} {offers : List Offer}
    (hfound : s.proof.replacementRules medium line path {} = .ok (found, e))
    (hoffers : ruleOffers line found = .ok offers) : Transition medium s { s with offers }
  /-- It adds an offer to the proof, and the offers are gone. -/
  | take {offer : Offer} {proof : Proof} (hoffer : offer ∈ s.offers)
    (hproof : s.proof.push offer = .ok proof) : Transition medium s { s with proof, offers := [] }
  /-- It fills a line with a statement that can be written. -/
  | fill {line : Nat} {filling : Statement} {proof : Proof} (hfilling : filling.Writable)
    (hproof : s.proof.fill line filling = .ok proof) : Transition medium s { s with proof }
  /-- It removes a line, and selection and offers are gone. -/
  | delete {line : Nat} {removed : Line} {proof : Proof}
    (hproof : s.proof.remove line = .ok (removed, proof)) : Transition medium s { proof }

variable {medium : Medium} {s s' : Session} {output : String}

theorem ofProof_eq_ok_iff {α : Type} {x : Except ProofError α} {a : α} :
    ofProof x = .ok a ↔ x = .ok a := by
  cases x <;> simp [ofProof]

/-- An option leads to one of the offers. -/
theorem mem_of_offer? {option : String} {offer : Offer} (h : s.offer? option = some offer) :
    offer ∈ s.offers := by
  unfold offer? at h
  split at h
  · exact List.mem_of_getElem? h
  · exact absurd h (by simp)

/-- An offer of forms is a result of a match, inferred from the selected lines. -/
theorem mem_formOffers {selected : List Nat} {found : List FormMatch} {o : Offer}
    (h : o ∈ formOffers selected found) :
    ∃ m ∈ found, ∃ d ∈ m.derived, o = ⟨d, m.form.abbreviation, selected⟩ := by
  obtain ⟨m, hm, ho⟩ := List.mem_flatMap.mp h
  obtain ⟨d, hd, rfl⟩ := List.mem_map.mp ho
  exact ⟨m, hm, d, hd, rfl⟩

/-- An offer of rules is a whole statement that was spliced and read again, inferred from its line. -/
theorem mem_ruleOffers {line : Nat} {found : List RuleMatch} {offers : List Offer}
    (hoffers : ruleOffers line found = .ok offers) {o : Offer} (ho : o ∈ offers) :
    ∃ m ∈ found, ∃ whole ∈ m.spliced, ∃ f, Statement.parse whole = .ok f ∧
      o = ⟨Draft.ofStatement f, m.rule.abbreviation, [line]⟩ := by
  obtain ⟨⟨whole, rule⟩, hmem, hread⟩ := exists_of_mem_right (mapM_eq_ok_iff.mp hoffers) ho
  obtain ⟨m, hm, hwhole⟩ := List.mem_flatMap.mp hmem
  obtain ⟨_, hspliced, heq⟩ := List.mem_map.mp hwhole
  obtain ⟨rfl, rfl⟩ := Prod.mk.inj heq
  dsimp only at hread
  split at hread
  · rename_i f hf
    exact ⟨m, hm, _, hspliced, f, hf, (Except.ok.inj hread).symm⟩
  · exact absurd hread (by simp)

/-- **Every command that is not refused is a transition**, if what it fills in can be written. -/
theorem transition_of_execute {c : Command} (hc : ∀ line filling, c = .fill line filling → filling.Writable)
    (h : s.execute medium c = .ok (s', output)) : Transition medium s s' := by
  cases c with
  | nothing | display | explain | help | leave =>
    obtain ⟨rfl, _⟩ := Prod.mk.inj (Except.ok.inj h)
    exact .print
  | select lines =>
    obtain ⟨found, hfound, h⟩ := bind_eq_ok_iff.mp h
    obtain ⟨rfl, _⟩ := Prod.mk.inj (Except.ok.inj h)
    refine .select fun i hi => ?_
    -- each line selected was found
    have hlines := mapM_eq_ok_iff.mp (ofProof_eq_ok_iff.mp hfound)
    obtain ⟨l, _, hl⟩ := exists_of_mem_left hlines hi
    rw [← Proof.length_lines]
    exact (List.getElem?_eq_some_iff.mp (Proof.line_eq_ok_iff.mp hl)).1
  | forms =>
    by_cases hsome : s.selected = []
    · exact absurd h (by simp [execute, hsome, bind, Except.bind])
    · unfold execute at h
      rw [if_neg (by simpa using hsome)] at h
      obtain ⟨⟨found, e⟩, hfound, h⟩ := bind_eq_ok_iff.mp h
      obtain ⟨rfl, _⟩ := Prod.mk.inj (Except.ok.inj h)
      exact .forms hsome (ofProof_eq_ok_iff.mp hfound)
  | rules line path =>
    obtain ⟨⟨found, e⟩, hfound, h⟩ := bind_eq_ok_iff.mp h
    obtain ⟨offers, hoffers, h⟩ := bind_eq_ok_iff.mp h
    obtain ⟨rfl, _⟩ := Prod.mk.inj (Except.ok.inj h)
    exact .rules (ofProof_eq_ok_iff.mp hfound) hoffers
  | take option =>
    unfold execute at h
    dsimp only at h
    split at h
    · exact absurd h (by simp)
    · rename_i offer hoffer
      obtain ⟨proof, hproof, h⟩ := bind_eq_ok_iff.mp h
      obtain ⟨rfl, _⟩ := Prod.mk.inj (Except.ok.inj h)
      exact .take (mem_of_offer? hoffer) (ofProof_eq_ok_iff.mp hproof)
  | fill line filling =>
    obtain ⟨proof, hproof, h⟩ := bind_eq_ok_iff.mp h
    obtain ⟨rfl, _⟩ := Prod.mk.inj (Except.ok.inj h)
    exact .fill (hc line filling rfl) (ofProof_eq_ok_iff.mp hproof)
  | delete line =>
    obtain ⟨⟨removed, proof⟩, hproof, h⟩ := bind_eq_ok_iff.mp h
    obtain ⟨rfl, _⟩ := Prod.mk.inj (Except.ok.inj h)
    exact .delete (ofProof_eq_ok_iff.mp hproof)

/-- Every command line that is not refused is a transition. -/
theorem transition_of_respond {input : String} (h : s.respond medium input = .done s' output) :
    Transition medium s s' := by
  unfold respond at h
  split at h
  · exact absurd h (by simp)
  · exact absurd h (by simp)
  · rename_i c _ hc
    split at h
    · rename_i hexecute
      obtain ⟨rfl, rfl⟩ := Response.done.inj h
      refine transition_of_execute (fun line filling heq => ?_) hexecute
      rw [heq] at hc
      exact Command.writable_of_ofLine hc
    · exact absurd h (by simp)

/-! ## Runs -/

/-- The session after command lines. A refused one changes nothing, and the command to leave ends the run. -/
def run (medium : Medium) (s : Session) : List String → Session
  | [] => s
  | input :: rest =>
    match s.respond medium input with
    | .ended => s
    | .done s' _ => s'.run medium rest
    | .refused _ => s.run medium rest

/-- **What every transition keeps holds after any run.** -/
theorem run_induction {motive : Session → Prop} (hs : motive s)
    (htransition : ∀ {s s'}, motive s → Transition medium s s' → motive s') (inputs : List String) :
    motive (s.run medium inputs) := by
  induction inputs generalizing s with
  | nil => exact hs
  | cons input rest ih =>
    unfold run
    split
    · exact hs
    · rename_i s' _ hdone
      exact ih (htransition hs (transition_of_respond hdone))
    · exact ih hs

end Session

end Sentential
