import Sentential.Proofs.Requests

/-!
# `Sentential.Proofs.Removals` — to remove a line is to renumber the others

A line that may be removed leaves no trace but in numbers. The lines that are left keep statement, rule and
citations, the line itself and the lines it cites being counted anew (`Proof.Removes`). Two laws follow. A line
that was just pushed is cited by none and stands below all, so that no number changes when it is removed, and the
proof is the one before. And two lines that may both be removed may be removed in either sequence: the number of
the lower one is one less if the upper one goes first, and what is left is counted alike (`renumber_renumber`).

For the second law the removal of one line must not make the other one cited. A citation that is left was there
before, under the numbers that its lines had (`exists_cites_of_remove`), and no other line takes over the number of
the one that was not cited.

## Contents
* `renumber_renumber`, `eraseIdx_eraseIdx` — numbers and lists with two lines taken out
* `exists_remove_iff` — exactly when a line can be removed
* `eq_of_lines_eq` — a proof is known from its lines
* `Removes`, `removes_of_remove` — what a removal does
* `CitesAbove.remove_push`, `CitesAbove.remove_remove` — the two laws
* `RemovesByRenumbering`, `afterAll_removes` — all of it, after any requests
-/

namespace Sentential

/-! ## Two lines taken out -/

namespace Proof

variable {i j : Nat}

/-- No two lines that are left have one number. -/
theorem renumber_inj {k : Nat} (hj : j ≠ i) (hk : k ≠ i) (h : renumber i j = renumber i k) : j = k := by
  rcases Nat.lt_trichotomy j k with hlt | heq | hlt
  · exact absurd h (Nat.ne_of_lt (renumber_lt_renumber hlt hj))
  · exact heq
  · exact absurd h.symm (Nat.ne_of_lt (renumber_lt_renumber hlt hk))

/-- Numbers with two lines taken out, in either sequence. -/
theorem renumber_renumber (hij : i < j) (k : Nat) : renumber (j - 1) (renumber i k) = renumber i (renumber j k) := by
  unfold renumber
  repeat' split
  all_goals omega

/-- A list with two members taken out, in either sequence. -/
theorem eraseIdx_eraseIdx {α : Type} (lines : List α) (hij : i < j) :
    (lines.eraseIdx i).eraseIdx (j - 1) = (lines.eraseIdx j).eraseIdx i := by
  induction lines generalizing i j with
  | nil => rfl
  | cons a rest ih =>
    obtain ⟨j, rfl⟩ : ∃ j', j = j' + 1 := ⟨j - 1, by omega⟩
    cases i with
    | zero => rfl
    | succ i =>
      obtain ⟨j, rfl⟩ : ∃ j', j = j' + 1 := ⟨j - 1, by omega⟩
      exact congrArg (a :: ·) (ih (Nat.lt_of_succ_lt_succ hij))

end Proof

namespace Line

open Proof

variable {i j : Nat} {l : Line}

theorem renumber_renumber (hij : i < j) (l : Line) :
    (l.renumber i).renumber (j - 1) = (l.renumber j).renumber i := by
  obtain ⟨statement, justification⟩ := l
  cases justification with
  | premise => rfl
  | rule abbreviation sources =>
    have hsources : (sources.map (Proof.renumber i)).map (Proof.renumber (j - 1)) =
        (sources.map (Proof.renumber j)).map (Proof.renumber i) := by
      rw [List.map_map, List.map_map]
      exact List.map_congr_left fun c _ => Proof.renumber_renumber hij c
    show Line.mk statement (.rule abbreviation _) = Line.mk statement (.rule abbreviation _)
    rw [hsources]

/-- A line that cites only lines above the one that is gone stays as it is. -/
theorem renumber_of_lt (h : ∀ c, l.cites c = true → c < i) : l.renumber i = l := by
  obtain ⟨statement, justification⟩ := l
  cases justification with
  | premise => rfl
  | rule abbreviation sources =>
    have hlt : ∀ c ∈ sources, c < i := fun c hc => h c (List.contains_iff_mem.mpr hc)
    show Line.mk statement (.rule abbreviation (sources.map (Proof.renumber i))) = _
    rw [map_renumber_of_lt hlt]

end Line

namespace Proof

variable {p p' p₁ p₂ : Proof} {i j k : Nat} {l m : Line}

/-! ## When a line can be removed -/

/-- No line cites the one that is removed. -/
theorem not_cites_of_remove (h : p.remove i = .ok (l, p')) (k : Nat) : ¬p.Cites k i := by
  rintro ⟨u, rule, sources, hu, hrule, hi⟩
  exact not_mem_sources_of_remove h (List.mem_of_getElem? hu) hrule hi

/-- **A line can be removed exactly if it is a step that no line cites.** -/
theorem exists_remove_iff :
    (∃ l p', p.remove i = .ok (l, p')) ↔
      p.premises.length ≤ i ∧ i < p.lines.length ∧ ∀ k, ¬p.Cites k i := by
  constructor
  · rintro ⟨l, p', h⟩
    obtain ⟨hl, hi, _, _⟩ := remove_eq_ok_iff.mp h
    exact ⟨hi, (List.getElem?_eq_some_iff.mp hl).1, not_cites_of_remove h⟩
  · rintro ⟨hi, hlt, hcites⟩
    cases h : p.remove i with
    | ok result => exact ⟨result.1, result.2, rfl⟩
    | error e =>
      -- each refusal is for a reason that is excluded
      rcases remove_eq_error_iff.mp h with ⟨hle, _⟩ | ⟨hpremise, _⟩ | ⟨_, _, k, hk, _⟩
      · omega
      · omega
      · exact absurd hk (hcites k)

/-! ## What a removal does -/

/-- A proof is known from its premises, its lines and its conclusion. -/
theorem eq_of_lines_eq {q : Proof} (hpremises : p.premises = q.premises) (hlines : p.lines = q.lines)
    (hconclusion : p.conclusion = q.conclusion) : p = q := by
  obtain ⟨premises, steps, conclusion⟩ := p
  obtain ⟨_, steps', _⟩ := q
  obtain rfl := hpremises
  obtain rfl := hconclusion
  have hinjective : ∀ t u : Step, t.line = u.line → t = u := by
    rintro ⟨statement, rule, sources⟩ ⟨_, _, _⟩ h
    simp only [Step.line, Line.mk.injEq, Justification.rule.injEq] at h
    obtain ⟨rfl, rfl, rfl⟩ := h
    rfl
  have hsteps : steps.map Step.line = steps'.map Step.line := List.append_cancel_left hlines
  rw [(List.map_inj_right hinjective).mp hsteps]

/-- One line is taken out of a proof, and nothing but numbers is changed. -/
structure Removes (p : Proof) (i : Nat) (l : Line) (p' : Proof) : Prop where
  /-- The line was there. -/
  taken : p.lines[i]? = some l
  length_eq : p'.lines.length + 1 = p.lines.length
  /-- Every other line is found under its new number, with its citations renumbered. -/
  kept : ∀ j, j ≠ i → p'.lines[renumber i j]? = p.lines[j]?.map (Line.renumber i)
  premises_eq : p'.premises = p.premises
  conclusion_eq : p'.conclusion = p.conclusion

/-- **To remove a line is to renumber the others.** -/
theorem removes_of_remove (h : p.remove i = .ok (l, p')) : p.Removes i l p' := by
  obtain ⟨hl, _, _, heq⟩ := remove_eq_ok_iff.mp h
  have hlt : i < p.lines.length := (List.getElem?_eq_some_iff.mp hl).1
  constructor
  case taken => exact hl
  case length_eq =>
    rw [lines_remove h, List.length_map, List.length_eraseIdx_of_lt hlt]
    omega
  case kept =>
    intro j hj
    rw [lines_remove h, List.getElem?_map, getElem?_eraseIdx_renumber p.lines hj]
  case premises_eq => rw [heq]
  case conclusion_eq => rw [heq]

/-! ## The two laws -/

/-- Lines that stand above a number and cite only lines above themselves are not changed by it. -/
theorem CitesAbove.map_renumber (h : p.CitesAbove) : p.lines.map (Line.renumber p.size) = p.lines := by
  refine (List.map_congr_left fun l hl => ?_).trans (List.map_id _)
  obtain ⟨k, hk⟩ := List.mem_iff_getElem?.mp hl
  apply Line.renumber_of_lt
  intro c hc
  have hcites : p.Cites k c := cites_iff.mpr ⟨l, hk, hc⟩
  exact Nat.lt_trans (h k c hcites) hcites.lt_size

/-- **A line that was just pushed can be removed**, and the proof is the one before. -/
theorem CitesAbove.remove_push (h : p.CitesAbove) {t : Step} (hp' : p.push t = .ok p') :
    p'.remove p.size = .ok (t.line, p) := by
  obtain ⟨_, heq⟩ := push_eq_ok_iff.mp hp'
  have hlines := lines_push hp'
  have hsize := size_push hp'
  -- the last line is cited by none, because lines cite only lines above them
  have hremovable : ∃ l q, p'.remove p.size = .ok (l, q) := by
    apply exists_remove_iff.mpr
    refine ⟨?_, ?_, ?_⟩
    · rw [heq]
      exact Nat.le_add_right _ _
    · rw [length_lines]
      omega
    · intro k hk
      have hbelow : p.size < k := h.push hp' k p.size hk
      have hlt : k < p'.size := hk.lt_size
      omega
  obtain ⟨l, q, hremove⟩ := hremovable
  have hremoves := removes_of_remove hremove
  have hline : l = t.line := by
    have htaken := hremoves.taken
    rw [hlines, ← length_lines, List.getElem?_concat_length] at htaken
    exact (Option.some.inj htaken).symm
  have hsame : q = p := by
    apply eq_of_lines_eq
    · rw [hremoves.premises_eq, heq]
    · rw [lines_remove hremove, hlines, ← length_lines, List.eraseIdx_append_of_length_le (Nat.le_refl _),
        Nat.sub_self, List.eraseIdx_cons_zero, List.append_nil, length_lines]
      exact h.map_renumber
    · rw [hremoves.conclusion_eq, heq]
  rw [hremove, hline, hsame]

/-- A line that is not cited is not cited once another is gone. -/
theorem not_cites_of_remove_of_ne (h : p.remove i = .ok (l, p')) (hne : j ≠ i) (hj : ∀ k, ¬p.Cites k j) (k' : Nat) :
    ¬p'.Cites k' (renumber i j) := by
  intro hcites
  obtain ⟨k, c, hold, hc, _, hnumber⟩ := exists_cites_of_remove h hcites
  obtain rfl := renumber_inj hc hne hnumber
  exact hj k hold

/-- A line that can be removed can be removed once another is gone. -/
theorem exists_remove_of_remove (hi : p.remove i = .ok (l, p₁)) (hj : p.remove j = .ok (m, p₂)) (hne : j ≠ i) :
    ∃ p₃, p₁.remove (renumber i j) = .ok (m.renumber i, p₃) := by
  have hremoves := removes_of_remove hi
  obtain ⟨hm, hpremise, _, _⟩ := remove_eq_ok_iff.mp hj
  obtain ⟨_, hpremise', _, _⟩ := remove_eq_ok_iff.mp hi
  have hline : p₁.lines[renumber i j]? = some (m.renumber i) := by
    rw [hremoves.kept j hne, hm, Option.map_some]
  have hremovable : ∃ u p₃, p₁.remove (renumber i j) = .ok (u, p₃) := by
    apply exists_remove_iff.mpr
    refine ⟨?_, (List.getElem?_eq_some_iff.mp hline).1, ?_⟩
    · rw [hremoves.premises_eq]
      unfold renumber
      split <;> omega
    · exact not_cites_of_remove_of_ne hi hne (not_cites_of_remove hj)
  obtain ⟨u, p₃, hremove⟩ := hremovable
  have htaken := (removes_of_remove hremove).taken
  rw [hline] at htaken
  obtain rfl := Option.some.inj htaken
  exact ⟨p₃, hremove⟩

/-- **Two lines can be removed in either sequence**, with the same proof in the end. -/
theorem CitesAbove.remove_remove (h : p.CitesAbove) (hij : i < j) (hi : p.remove i = .ok (l, p₁))
    (hj : p.remove j = .ok (m, p₂)) :
    ∃ p₃, p₁.remove (j - 1) = .ok (m.renumber i, p₃) ∧ p₂.remove i = .ok (l, p₃) := by
  have hlower : renumber i j = j - 1 := if_pos hij
  have hupper : renumber j i = i := if_neg (by omega)
  obtain ⟨p₃, hfirst⟩ := exists_remove_of_remove hi hj (by omega)
  obtain ⟨p₄, hsecond⟩ := exists_remove_of_remove hj hi (by omega)
  rw [hlower] at hfirst
  rw [hupper] at hsecond
  -- what the upper line cites is above it, and so above the lower line
  have hline : l.renumber j = l := by
    apply Line.renumber_of_lt
    intro c hc
    have habove : c < i := h i c (cites_iff.mpr ⟨l, (removes_of_remove hi).taken, hc⟩)
    omega
  have hsame : p₄ = p₃ := by
    apply eq_of_lines_eq
    · rw [(removes_of_remove hsecond).premises_eq, (removes_of_remove hj).premises_eq,
        (removes_of_remove hfirst).premises_eq, (removes_of_remove hi).premises_eq]
    · rw [lines_remove hsecond, lines_remove hj, lines_remove hfirst, lines_remove hi, List.eraseIdx_map,
        List.eraseIdx_map, List.map_map, List.map_map, eraseIdx_eraseIdx p.lines hij]
      exact List.map_congr_left fun u _ => (Line.renumber_renumber hij u).symm
    · rw [(removes_of_remove hsecond).conclusion_eq, (removes_of_remove hj).conclusion_eq,
        (removes_of_remove hfirst).conclusion_eq, (removes_of_remove hi).conclusion_eq]
  rw [hline, hsame] at hsecond
  exact ⟨p₃, hfirst, hsecond⟩

/-! ## After any requests -/

/-- Removals take lines out of a proof and change nothing but numbers. -/
structure RemovesByRenumbering (p : Proof) : Prop where
  removes : ∀ i l p', p.remove i = .ok (l, p') → p.Removes i l p'
  /-- A removal in place, which renumbers only below the line, comes to the same. -/
  in_place : ∀ i l p', p.remove i = .ok (l, p') → (Request.remove i).perform.run p = .ok () p'
  /-- A step that is pushed and removed leaves the proof as it was. -/
  push_remove : ∀ t p', p.push t = .ok p' → p'.remove p.size = .ok (t.line, p)
  /-- Two lines can be removed in either sequence. -/
  remove_comm : ∀ i j l m p₁ p₂, i < j → p.remove i = .ok (l, p₁) → p.remove j = .ok (m, p₂) →
    ∃ p₃, p₁.remove (j - 1) = .ok (m.renumber i, p₃) ∧ p₂.remove i = .ok (l, p₃)

/-- **After any requests, to remove a line is to renumber the others.** -/
theorem afterAll_removes {premises : List String} {conclusion : String} {start : Proof}
    (h : Proof.parse premises conclusion = .ok start) (requests : List Request) :
    (start.afterAll requests).RemovesByRenumbering := by
  obtain ⟨hall, _⟩ := (citesAbove_of_parse h).afterAll requests
  constructor
  case removes => exact fun i l p' hp' => removes_of_remove hp'
  case in_place =>
    intro i l p' hp'
    have hresult : (Request.remove i).result (start.afterAll requests) = .ok p' := by
      show (remove _ i).map Prod.snd = .ok p'
      rw [hp']
      rfl
    rw [Request.perform_run hall, hresult]
  case push_remove => exact fun t p' hp' => hall.remove_push hp'
  case remove_comm => exact fun i j l m p₁ p₂ hij hi hj => hall.remove_remove hij hi hj

/-- Two lines that no line cites, above one that cites a line twice. -/
theorem afterAll_removes_twice :
    ∃ start requests, Proof.parse ["A"] "A v B" = .ok start ∧
      requests = [.push ⟨.binary .disjunction (.atom (some ⟨"A"⟩)) (.atom none), "Add", [0]⟩,
        .push ⟨.binary .disjunction (.atom (some ⟨"A"⟩)) (.atom (some ⟨"A"⟩)), "Add", [0]⟩,
        .push ⟨.binary .conjunction (.atom (some ⟨"A"⟩)) (.atom (some ⟨"A"⟩)), "Conj", [0, 0]⟩,
        .push ⟨.atom (some ⟨"A"⟩), "Simp", [3, 0, 3]⟩] ∧
      (start.afterAll requests).RemovesByRenumbering ∧
      ∃ l m p₁ p₂ p₃, (start.afterAll requests).remove 1 = .ok (l, p₁) ∧
        (start.afterAll requests).remove 2 = .ok (m, p₂) ∧
        p₁.remove 1 = .ok (m, p₃) ∧ p₂.remove 1 = .ok (l, p₃) ∧ p₃.steps.map Step.sources = [[0, 0], [1, 0, 1]] := by
  have hstart : Proof.parse ["A"] "A v B" =
      .ok ⟨[.atom ⟨"A"⟩], [], .binary .disjunction (.atom ⟨"A"⟩) (.atom ⟨"B"⟩)⟩ := rfl
  refine ⟨_, _, hstart, rfl, afterAll_removes hstart _, ?_⟩
  exact ⟨_, _, _, _, _, rfl, rfl, rfl, rfl, rfl⟩

end Proof

end Sentential
