import Sentential.Proofs.Edits
import Sentential.Proofs.Runs

/-!
# `Sentential.Proofs.Citations` — a line is justified by the lines that it cites

A line that is no premise names a rule and cites lines. It is **grounded** if the rule is one that a search from
the cited lines finds now, with the line as a result. That was so when the line was offered, but the proof has
changed since: lines were taken out, which renumbers citations; the line itself may have been filled; and other
commands may have come between the offer and the line.

Two facts carry groundedness through all this. A line that is cited has a statement, so it is never filled; and
it is never removed while it is cited. Hence the statements that a search starts from are the same before and
after every change (`Grounded.carry`). An offer is treated as a line that is to come: it is grounded below all
lines of the proof. Only a removal could end that, and a removal discards the offers.

## Contents
* `InferredByForm`, `RewrittenByRule`, `Inferred` — what a search finds
* `Proof.Grounded`, `Grounded.carry` — a line and what it cites
* `Proof.Justified` — every line is grounded; kept by every change
* `Session.Justified`, `Session.Justified.transition` — the invariant of sessions
* `run_justified` — every state that a session reaches is justified
-/

namespace Sentential

/-! ## What a search finds -/

section

variable (medium : Medium) (e : Explanation)

/-- A search with the usual forms finds one with the abbreviation, and a result of it is the draft or was filled
    to become the draft. -/
def InferredByForm (statements : List Statement) (abbreviation : String) (d : Draft) : Prop :=
  ∃ m ∈ (Catalogue.standard.searchForms medium statements e).1, m.form.abbreviation = abbreviation ∧
    ∃ result ∈ m.derived, d = result ∨ ∃ filling, d = Draft.ofStatement (result.fill filling)

/-- A search with the usual rules at some path in the statement finds one with the abbreviation, and one of the
    texts that it gives is read as the draft. -/
def RewrittenByRule (s : Statement) (abbreviation : String) (d : Draft) : Prop :=
  ∃ path found e', Catalogue.standard.searchRules medium s path e = .ok (found, e') ∧
    ∃ m ∈ found, m.rule.abbreviation = abbreviation ∧
      ∃ whole ∈ m.spliced, ∃ f, Statement.parse whole = .ok f ∧ d = Draft.ofStatement f

/-- What a search with rules finds does not depend on how the search is written down. -/
theorem Catalogue.searchRules_found {c : Catalogue Statement} {used : Medium} {s : Statement} {path : Path}
    {before after : Explanation} {found : List RuleMatch}
    (h : c.searchRules used s path before = .ok (found, after)) :
    ∃ e', c.searchRules medium s path e = .ok (found, e') := by
  unfold Catalogue.searchRules at h ⊢
  split at h
  · exact absurd h (by simp)
  · obtain ⟨rfl, _⟩ := Prod.mk.inj (Except.ok.inj h)
    exact ⟨_, rfl⟩

/-- A form infers the draft from the statements, or they are one and a rule rewrites it as the draft. -/
def Inferred (statements : List Statement) (abbreviation : String) (d : Draft) : Prop :=
  InferredByForm medium e statements abbreviation d ∨
    ∃ s, statements = [s] ∧ RewrittenByRule medium e s abbreviation d

end

variable {medium : Medium} {e : Explanation}

/-- What is inferred may be filled. -/
theorem Inferred.fill {statements : List Statement} {abbreviation : String} {d : Draft}
    (h : Inferred medium e statements abbreviation d) (hd : d.hasPlaceholder = true) (filling : Statement) :
    Inferred medium e statements abbreviation (Draft.ofStatement (d.fill filling)) := by
  rcases h with ⟨m, hm, hrule, result, hresult, rfl | ⟨_, rfl⟩⟩ | ⟨_, _, _, _, _, _, _, _, _, _, _, _, _, rfl⟩
  · exact .inl ⟨m, hm, hrule, d, hresult, .inr ⟨filling, rfl⟩⟩
  -- a result that was filled, or read, has no placeholder
  · exact absurd hd (by simp [Draft.hasPlaceholder_ofStatement])
  · exact absurd hd (by simp [Draft.hasPlaceholder_ofStatement])

namespace Proof

/-! ## A line and what it cites -/

/-- The citations of a line at place `k` are above it and have statements, from which the line is inferred. -/
structure Grounded (medium : Medium) (e : Explanation) (p : Proof) (k : Nat) (abbreviation : String)
    (sources : List Nat) (d : Draft) : Prop where
  sources_ne : sources ≠ []
  sources_lt : ∀ j ∈ sources, j < k
  inferred : ∃ statements, p.statements sources = .ok statements ∧
    Inferred medium e statements abbreviation d

variable {p p' : Proof} {i k : Nat} {abbreviation : String} {sources : List Nat} {d : Draft}

/-- **What is grounded stays grounded** where every line cited keeps its statement under a new number. -/
theorem Grounded.carry (h : Grounded medium e p k abbreviation sources d) (number : Nat → Nat) {k' : Nat}
    (hlt : ∀ j ∈ sources, number j < k')
    (hnumber : ∀ j ∈ sources, ∀ s, p.statement j = .ok s → p'.statement (number j) = .ok s) :
    Grounded medium e p' k' abbreviation (sources.map number) d := by
  obtain ⟨statements, hstatements, hinferred⟩ := h.inferred
  refine ⟨by simpa using h.sources_ne, ?_, statements, statements_map hnumber hstatements, hinferred⟩
  intro j hj
  obtain ⟨j', hj', rfl⟩ := List.mem_map.mp hj
  exact hlt j' hj'

/-- The same where no line gets another number. -/
theorem Grounded.keep (h : Grounded medium e p k abbreviation sources d)
    (hstatement : ∀ j s, p.statement j = .ok s → p'.statement j = .ok s) :
    Grounded medium e p' k abbreviation sources d := by
  have hcarried := h.carry id h.sources_lt fun j _ s hs => hstatement j s hs
  rwa [List.map_id] at hcarried

/-- Each line cited is there and has no placeholder. -/
theorem Grounded.cited (h : Grounded medium e p k abbreviation sources d) {j : Nat} (hj : j ∈ sources) :
    ∃ l, p.lines[j]? = some l ∧ l.statement.hasPlaceholder = false := by
  obtain ⟨statements, hstatements, _⟩ := h.inferred
  obtain ⟨s, _, hs⟩ := exists_of_mem_left (statements_eq_ok_iff.mp hstatements) hj
  obtain ⟨l, hl, heq⟩ := statement_eq_ok_iff.mp hs
  exact ⟨l, hl, heq ▸ Draft.hasPlaceholder_ofStatement s⟩

/-! ## Changes of a proof -/

/-- Every line that is no premise is grounded. -/
def Justified (medium : Medium) (e : Explanation) (p : Proof) : Prop :=
  ∀ k l abbreviation sources, p.lines[k]? = some l → l.justification = .rule abbreviation sources →
    Grounded medium e p k abbreviation sources l.statement

theorem Justified.push (h : p.Justified medium e) {t : Step}
    (ht : Grounded medium e p p.size t.rule t.sources t.statement) (hp' : p.push t = .ok p') :
    p'.Justified medium e := by
  have hkeep : ∀ j s, p.statement j = .ok s → p'.statement j = .ok s := fun j s => statement_push hp'
  intro k l abbreviation sources hl hrule
  rcases getElem?_lines_of_push hp' hl with hold | ⟨rfl, rfl⟩
  · exact (h k l abbreviation sources hold hrule).keep hkeep
  · obtain ⟨rfl, rfl⟩ := Justification.rule.inj hrule
    exact ht.keep hkeep

theorem Justified.fill (h : p.Justified medium e) {filling : Statement} (hp' : p.fill i filling = .ok p') :
    p'.Justified medium e := by
  have hkeep : ∀ j s, p.statement j = .ok s → p'.statement j = .ok s := fun j s => statement_fill hp'
  intro k l abbreviation sources hl hrule
  obtain ⟨old, hold, hjustification, hstatement⟩ := getElem?_lines_of_fill hp' hl
  have hgrounded := (h k old abbreviation sources hold (hjustification ▸ hrule)).keep hkeep
  rcases hstatement with rfl | ⟨hplaceholder, hfilled⟩
  · exact hgrounded
  · obtain ⟨statements, hstatements, hinferred⟩ := hgrounded.inferred
    rw [hfilled]
    exact ⟨hgrounded.sources_ne, hgrounded.sources_lt, statements, hstatements,
      hinferred.fill hplaceholder filling⟩

theorem Justified.remove (h : p.Justified medium e) {removed : Line} (hp' : p.remove i = .ok (removed, p')) :
    p'.Justified medium e := by
  intro k' l' abbreviation sources' hl' hrule'
  obtain ⟨k, old, sources, _, rfl, hold, rfl, hrule, rfl, hcited⟩ := exists_rule_of_remove hp' hl' hrule'
  have hgrounded := h k old abbreviation sources hold hrule
  refine hgrounded.carry (renumber i) (fun j hj => ?_) fun j hj s hs => statement_remove hp' (hcited j hj) hs
  exact renumber_lt_renumber (hgrounded.sources_lt j hj) (hcited j hj)

/-- A proof without steps has nothing to justify. -/
theorem justified_of_parse {premises : List String} {conclusion : String}
    (h : Proof.parse premises conclusion = .ok p) : p.Justified medium e := by
  intro k l abbreviation sources hl hrule
  rw [justification_of_parse h (List.mem_of_getElem? hl)] at hrule
  exact absurd hrule (by simp)

end Proof

namespace Session

/-! ## Sessions -/

/-- Every line of the proof is grounded, and every offer is, below all lines. -/
structure Justified (medium : Medium) (e : Explanation) (s : Session) : Prop where
  proof : s.proof.Justified medium e
  offers : ∀ o ∈ s.offers, s.proof.Grounded medium e s.proof.size o.rule o.sources o.statement

variable {s s' : Session}

/-- What the forms infer from selected lines is grounded. -/
theorem grounded_of_mem_formOffers {p : Proof} {used : Medium} {selected : List Nat} {e' : Explanation}
    {found : List FormMatch} (hsome : selected ≠ [])
    (hfound : p.argumentForms used selected {} = .ok (found, e')) {o : Offer}
    (ho : o ∈ formOffers selected found) : p.Grounded medium e p.size o.rule o.sources o.statement := by
  obtain ⟨statements, hstatements, hsearch⟩ := Proof.argumentForms_eq_ok_iff.mp hfound
  obtain ⟨m, hm, d, hd, rfl⟩ := mem_formOffers ho
  obtain ⟨rfl, _⟩ := Prod.mk.inj hsearch
  -- what a search finds does not depend on how it is written down
  have hinferred : InferredByForm medium e statements m.form.abbreviation d := ⟨m, hm, rfl, d, hd, .inl rfl⟩
  exact ⟨hsome, fun j hj => Proof.lt_size_of_statements hstatements hj, statements, hstatements, .inl hinferred⟩

/-- What the rules make of a line is grounded. -/
theorem grounded_of_mem_ruleOffers {p : Proof} {used : Medium} {line : Nat} {path : Path} {e' : Explanation}
    {found : List RuleMatch} {offers : List Offer}
    (hfound : p.replacementRules used line path {} = .ok (found, e'))
    (hoffers : ruleOffers line found = .ok offers) {o : Offer} (ho : o ∈ offers) :
    p.Grounded medium e p.size o.rule o.sources o.statement := by
  obtain ⟨s, hs, hsearch⟩ := Proof.replacementRules_eq_ok_iff.mp hfound
  obtain ⟨m, hm, whole, hwhole, f, hread, rfl⟩ := mem_ruleOffers hoffers ho
  have hstatements : p.statements [line] = .ok [s] := Proof.statements_eq_ok_iff.mpr (.cons hs .nil)
  have hrewritten : RewrittenByRule medium e s m.rule.abbreviation (Draft.ofStatement f) := by
    obtain ⟨e'', hsearch'⟩ := Catalogue.searchRules_found medium e hsearch
    exact ⟨path, found, e'', hsearch', m, hm, rfl, whole, hwhole, f, hread, rfl⟩
  exact ⟨List.cons_ne_nil line [], fun j hj => Proof.lt_size_of_statements hstatements hj, [s], hstatements,
    .inr ⟨s, rfl, hrewritten⟩⟩

/-- **Every transition keeps a session justified.** -/
theorem Justified.transition {used : Medium} (h : s.Justified medium e) (ht : Transition used s s') :
    s'.Justified medium e := by
  cases ht with
  | print => exact h
  | select _ => exact ⟨h.proof, h.offers⟩
  | forms hsome hfound => exact ⟨h.proof, fun o ho => grounded_of_mem_formOffers hsome hfound ho⟩
  | rules hfound hoffers => exact ⟨h.proof, fun o ho => grounded_of_mem_ruleOffers hfound hoffers ho⟩
  | take hoffer hproof => exact ⟨h.proof.push (h.offers _ hoffer) hproof, fun o ho => absurd ho List.not_mem_nil⟩
  | fill _ hproof =>
    refine ⟨h.proof.fill hproof, fun o ho => ?_⟩
    rw [Proof.size_fill hproof]
    exact (h.offers o ho).keep fun j s => Proof.statement_fill hproof
  | delete hproof => exact ⟨h.proof.remove hproof, fun o ho => absurd ho List.not_mem_nil⟩

/-- **Every line stays justified by the lines that it cites.** Whatever command lines a session is given, a line
    that is no premise cites at least one line, and all of them are above it and have no placeholder. From
    their statements, in the sequence cited, a search with the usual forms finds one with the line's
    abbreviation that has the line as a result, perhaps filled since; or the line cites one line only, and a
    search with the usual rules in it finds one with the abbreviation that gives the line as a whole. -/
theorem run_justified {premises : List String} {conclusion : String} {start : Session}
    (h : Session.start premises conclusion = .ok start) (used : Medium) (inputs : List String)
    (medium : Medium) (e : Explanation) {k : Nat} {l : Line} {abbreviation : String} {sources : List Nat}
    (hl : (start.run used inputs).proof.lines[k]? = some l)
    (hrule : l.justification = .rule abbreviation sources) :
    sources ≠ [] ∧
      (∀ j ∈ sources, j < k ∧ ∃ cited, (start.run used inputs).proof.lines[j]? = some cited ∧
        cited.statement.hasPlaceholder = false) ∧
      ((∃ statements, (start.run used inputs).proof.statements sources = .ok statements ∧
          InferredByForm medium e statements abbreviation l.statement) ∨
        ∃ j s, sources = [j] ∧ (start.run used inputs).proof.statement j = .ok s ∧
          RewrittenByRule medium e s abbreviation l.statement) := by
  have hstart : start.Justified medium e := by
    obtain ⟨p, hp, rfl⟩ := map_eq_ok_iff.mp h
    exact ⟨Proof.justified_of_parse hp, fun o ho => absurd ho List.not_mem_nil⟩
  have hrun : (start.run used inputs).Justified medium e :=
    run_induction hstart (fun hs ht => hs.transition ht) inputs
  have hgrounded := hrun.proof k l abbreviation sources hl hrule
  refine ⟨hgrounded.sources_ne, fun j hj => ⟨hgrounded.sources_lt j hj, hgrounded.cited hj⟩, ?_⟩
  obtain ⟨statements, hstatements, hform | ⟨s, rfl, hrewritten⟩⟩ := hgrounded.inferred
  · exact .inl ⟨statements, hstatements, hform⟩
  · -- one statement is read from one line
    cases Proof.statements_eq_ok_iff.mp hstatements with
    | cons hs hrest =>
      cases hrest
      exact .inr ⟨_, s, rfl, hs, hrewritten⟩

/-- The last line is the commutation of one that was filled, and a line above both was removed. -/
theorem run_justified_renumbered :
    ∃ start inputs l, Session.start ["A", "B"] "A v B" = .ok start ∧
      inputs = ["select 1", "forms", "take 1", "select 2", "forms", "take 1", "fill 4 A", "rules 4", "take 1",
        "delete 3"] ∧
      (start.run .plain inputs).proof.lines[3]? = some l ∧ l.justification = .rule "Com" [2] ∧
      ((∃ statements, (start.run .plain inputs).proof.statements [2] = .ok statements ∧
          InferredByForm .plain {} statements "Com" l.statement) ∨
        ∃ j s, [2] = [j] ∧ (start.run .plain inputs).proof.statement j = .ok s ∧
          RewrittenByRule .plain {} s "Com" l.statement) := by
  have hstart : Session.start ["A", "B"] "A v B" =
      .ok ⟨⟨[.atom ⟨"A"⟩, .atom ⟨"B"⟩], [], .binary .disjunction (.atom ⟨"A"⟩) (.atom ⟨"B"⟩)⟩, [], []⟩ := rfl
  have hline : (Session.run .plain
      ⟨⟨[.atom ⟨"A"⟩, .atom ⟨"B"⟩], [], .binary .disjunction (.atom ⟨"A"⟩) (.atom ⟨"B"⟩)⟩, [], []⟩
      ["select 1", "forms", "take 1", "select 2", "forms", "take 1", "fill 4 A", "rules 4", "take 1",
        "delete 3"]).proof.lines[3]? =
      some ⟨.binary .disjunction (.atom (some ⟨"A"⟩)) (.atom (some ⟨"B"⟩)), .rule "Com" [2]⟩ := by
    decide +kernel
  exact ⟨_, _, _, hstart, rfl, hline, rfl, (run_justified hstart .plain _ .plain {} hline rfl).2.2⟩

end Session

end Sentential
