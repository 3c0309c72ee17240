import Sentential.Proofs.Matching
import Sentential.Proofs.Requests

/-!
# `Sentential.Proofs.Filling` — filling completes a substitution

A pattern is substituted as far as its variables are bound, and those that are left become placeholders. Filling
these later comes to the same as having bound the variables before: the draft is filled to the statement that the
pattern becomes once every variable left is bound to the filling (`Bindings.completed`,
`statement?_substitute_completed`). Neither way looks into the statements that were substituted, so that a symbol
in them may well be named like a variable that is left.

All placeholders are filled alike, so that none remains. A draft without placeholder is a statement in disguise and
stays what it is, whatever it is filled with (`statement?_of_finished`). For a line of a proof that was filled this
means that the statement on it can be read (`statement_of_fill`) and that it is not filled again (`fill_of_fill`).

## Contents
* `Bindings.completed`, `get?_completed` — bindings with nothing left to bind in a pattern
* `statement?_substitute_completed` — filling as substitution
* `statement?_of_finished`, `ofStatement_fill_of_finished` — drafts without placeholder
* `Proof.statement_of_fill`, `Proof.fill_of_fill` — a line that was filled
* `Bindings.CompletedByFilling`, `Proof.FilledAt`, `fill_completes` — the laws together
-/

namespace Sentential

/-! ## Nothing left to bind -/

namespace Bindings

variable {b : Bindings} {p filling : Statement} {x : Symbol}

/-- The bindings, and behind them every variable of the pattern that has no value bound to a statement. -/
def completed (b : Bindings) (p filling : Statement) : Bindings where
  pairs := b.pairs ++ (p.symbols.filter (· ∉ b.keys)).map fun x => (x, filling)
  nodup := by
    have hkeys : ((p.symbols.filter (· ∉ b.keys)).map fun x => (x, filling)).map Prod.fst =
        p.symbols.filter (· ∉ b.keys) := by
      rw [List.map_map]
      exact List.map_id _
    rw [List.map_append, hkeys, List.nodup_append]
    refine ⟨b.nodup, (nodup_distinct p.leaves).filter _, ?_⟩
    rintro x hx y hy rfl
    exact of_decide_eq_true (List.mem_filter.mp hy).2 hx

/-- A variable of the pattern keeps its value, or has the filling for its value. -/
theorem get?_completed (hx : x ∈ p.leaves) : (b.completed p filling).get? x = some ((b.get? x).getD filling) := by
  rw [Assignment.get?_eq_some_iff]
  show _ ∈ b.pairs ++ _
  cases hb : b.get? x with
  | some s => exact List.mem_append_left _ (Assignment.get?_eq_some_iff.mp hb)
  | none =>
    have hnew : x ∉ b.keys := Assignment.get?_eq_none_iff.mp hb
    have hleft : x ∈ p.symbols.filter (· ∉ b.keys) :=
      List.mem_filter.mpr ⟨mem_distinct.mpr hx, decide_eq_true hnew⟩
    exact List.mem_append_right _ (List.mem_map.mpr ⟨x, hleft, rfl⟩)

/-- The pattern is realised as what its draft is filled to. -/
theorem realises_completed (b : Bindings) (p filling : Statement) :
    (b.completed p filling).Realises p ((substitute p b).fill filling) := by
  constructor
  case binds => exact fun x hx => ⟨_, get?_completed hx⟩
  case bind_eq =>
    rw [fill_substitute]
    refine Formula.bind_congr fun x hx => ?_
    rw [value, get?_completed hx, Option.getD_some]

end Bindings

/-- **To fill what was substituted is to substitute with the variables that were left bound to the filling.** -/
theorem statement?_substitute_completed (p : Statement) (b : Bindings) (filling : Statement) :
    (substitute p (b.completed p filling)).statement? = some ((substitute p b).fill filling) :=
  statement?_substitute_iff.mpr (b.realises_completed p filling)

/-! ## Drafts without placeholder -/

namespace Draft

variable {d : Draft}

/-- A finished draft is the statement that it is filled to, whatever it is filled with. -/
theorem statement?_of_finished (h : d.hasPlaceholder = false) (filling : Statement) :
    d.statement? = some (d.fill filling) := by
  obtain ⟨s, rfl⟩ := hasPlaceholder_eq_false_iff.mp h
  rw [fill_ofStatement, statement?_ofStatement]

/-- As a draft, that statement is the draft again. -/
theorem ofStatement_fill_of_finished (h : d.hasPlaceholder = false) (filling : Statement) :
    ofStatement (d.fill filling) = d := by
  obtain ⟨s, rfl⟩ := hasPlaceholder_eq_false_iff.mp h
  rw [fill_ofStatement]

end Draft

/-! ## Lines that were filled -/

namespace Proof

variable {p p' : Proof} {i : Nat} {filling : Statement}

/-- The line that is filled holds what its draft is filled to. -/
theorem statement_of_fill (h : p.fill i filling = .ok p') :
    ∃ l, p.line i = .ok l ∧ p'.statement i = .ok (l.statement.fill filling) := by
  obtain ⟨l, hl, _, hlines⟩ := lines_fill h
  have hi : i < p.lines.length := (List.getElem?_eq_some_iff.mp hl).1
  refine ⟨l, line_eq_ok_iff.mpr hl, statement_eq_ok_iff.mpr ?_⟩
  rw [hlines, List.getElem?_set_self hi]
  exact ⟨_, rfl, rfl⟩

/-- A line with a statement is not filled. -/
theorem fill_of_statement {s : Statement} (h : p.statement i = .ok s) (filling : Statement) :
    p.fill i filling = .error (.nothingToFill i) := by
  obtain ⟨l, hl, heq⟩ := statement_eq_ok_iff.mp h
  refine fill_eq_error_iff.mpr (.inr ⟨l, hl, ?_, rfl⟩)
  rw [heq, Draft.hasPlaceholder_ofStatement]

/-- No line is filled twice. -/
theorem fill_of_fill (h : p.fill i filling = .ok p') (other : Statement) :
    p'.fill i other = .error (.nothingToFill i) := by
  obtain ⟨_, _, hs⟩ := statement_of_fill h
  exact fill_of_statement hs other

end Proof

/-! ## The laws together -/

/-- What is substituted for the pattern lacks only the variables that are left, and filling makes up for these. -/
structure Bindings.CompletedByFilling (b : Bindings) (p : Statement) : Prop where
  /-- To fill is to bind the variables that are left. -/
  fill : ∀ filling, (substitute p (b.completed p filling)).statement? = some ((substitute p b).fill filling)
  /-- There is a placeholder exactly if some variable is left. -/
  hasPlaceholder_iff : (substitute p b).hasPlaceholder = true ↔ ∃ x ∈ p.leaves, b.get? x = none
  /-- There is no statement in exactly the same case. -/
  statement?_iff : (substitute p b).statement? = none ↔ ∃ x ∈ p.leaves, b.get? x = none

/-- In the second proof the line of the first one is filled. -/
structure Proof.FilledAt (p : Proof) (i : Nat) (filling : Statement) (p' : Proof) : Prop where
  /-- The statement on the line is what the draft there was filled to. -/
  statement : ∃ l, p.line i = .ok l ∧ p'.statement i = .ok (l.statement.fill filling)
  /-- Nothing is left to fill. -/
  refused : ∀ other, p'.fill i other = .error (.nothingToFill i)

/-- **Filling completes a substitution.** It gives the variables that were left their value, keeps a draft without
    placeholder as it is, and finishes a line of a proof for good. -/
theorem fill_completes :
    (∀ (p : Statement) (b : Bindings), b.CompletedByFilling p) ∧
      (∀ d : Draft, d.hasPlaceholder = false → ∀ filling,
        d.statement? = some (d.fill filling) ∧ Draft.ofStatement (d.fill filling) = d) ∧
      ∀ (p p' : Proof) (i : Nat) (filling : Statement), p.fill i filling = .ok p' → p.FilledAt i filling p' := by
  refine ⟨fun p b => ?_, fun d hd filling => ?_, fun p p' i filling h => ?_⟩
  · constructor
    case fill => exact statement?_substitute_completed p b
    case hasPlaceholder_iff => exact hasPlaceholder_substitute_iff
    case statement?_iff => exact Draft.statement?_eq_none_iff.trans hasPlaceholder_substitute_iff
  · exact ⟨Draft.statement?_of_finished hd filling, Draft.ofStatement_fill_of_finished hd filling⟩
  · exact ⟨Proof.statement_of_fill h, Proof.fill_of_fill h⟩

/-- What is bound and what is filled in have a symbol that is named like the variable that is left. -/
theorem fill_completes_named_alike :
    ∃ (pattern : Statement) (b : Bindings) (filling : Statement) (d : Draft) (p p' : Proof),
      pattern.text = "P v Q" ∧ b.text = "\x7bP←Q & A\x7d" ∧ filling.text = "~Q" ∧ b.CompletedByFilling pattern ∧
      (substitute pattern b).text = "(Q & A) v %" ∧ ((substitute pattern b).fill filling).text = "(Q & A) v ~Q" ∧
      d.text = "Q & A" ∧ d.hasPlaceholder = false ∧ d.statement? = some (d.fill filling) ∧
      Draft.ofStatement (d.fill filling) = d ∧
      p.lines.map (·.statement) = [d, substitute pattern b] ∧ p.fill 1 filling = .ok p' ∧
      p.FilledAt 1 filling p' ∧ p'.lines.map (·.statement.text) = ["Q & A", "(Q & A) v ~Q"] := by
  let bound : Statement := .binary .conjunction (.atom ⟨"Q"⟩) (.atom ⟨"A"⟩)
  let pattern : Statement := .binary .disjunction (.atom ⟨"P"⟩) (.atom ⟨"Q"⟩)
  let b : Bindings := ⟨[(⟨"P"⟩, bound)], by simp⟩
  let filling : Statement := .negation (.atom ⟨"Q"⟩)
  let p : Proof := ⟨[bound], [⟨substitute pattern b, "Add", [0]⟩], pattern⟩
  obtain ⟨p', hp', hlines⟩ : ∃ p', p.fill 1 filling = .ok p' ∧
      p'.lines.map (·.statement.text) = ["Q & A", "(Q & A) v ~Q"] := ⟨_, rfl, by decide +kernel⟩
  obtain ⟨hcompleted, hfinished, hfilled⟩ := fill_completes
  have hd : (Draft.ofStatement bound).hasPlaceholder = false := by decide
  obtain ⟨hstatement, hdraft⟩ := hfinished (Draft.ofStatement bound) hd filling
  exact ⟨pattern, b, filling, Draft.ofStatement bound, p, p', by decide +kernel, by decide +kernel,
    by decide +kernel, hcompleted pattern b, by decide +kernel, by decide +kernel, by decide +kernel, hd, hstatement,
    hdraft, rfl, hp', hfilled p p' 1 filling hp', hlines⟩

end Sentential
