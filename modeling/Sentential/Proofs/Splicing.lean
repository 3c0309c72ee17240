import Sentential.Proofs.Replacement

/-!
# `Sentential.Proofs.Splicing` — which results are put back into the statement

A match of a rule lists what the fragment becomes, and for each result a text that is meant to show the whole
statement with the result in the fragment's place. For a finished result it does. An unfinished result, one with
a placeholder, is not put back: its text is given as it stands (`splice_of_unfinished`).

At the root that is the whole statement all the same. Below the root it is not, since a formula is printed longer
than any fragment below its root (`length_text_lt`), and so no text of a result is that of the statement around
it. So all texts of a match are whole statements exactly at the root or where every result is finished
(`RuleMatch.splicesWhole_iff`). A rule whose two sides have different variables gives results that are not.

## Contents
* `replace?_map` — replacing where the leaves were replaced
* `length_text_lt` — a fragment is printed shorter than the formula
* `exists_whole_of_finished`, `splice_of_unfinished`, `splice_whole_iff` — the text for one result
* `RuleMatch.SplicesWhole`, `RuleMatch.Splices` — the texts of a match
* `searchRules_splices` — the texts of every match of a search
-/

namespace Sentential

namespace Formula

/-! ## Leaves replaced by leaves -/

section

variable {α β : Type}

theorem children_map (h : α → β) (f : Formula α) : (f.map h).children = f.children.map (map h) := by
  cases f <;> rfl

theorem setChild_map (h : α → β) (f : Formula α) (i : Nat) (new : Formula α) :
    (f.map h).setChild i (new.map h) = (f.setChild i new).map h := by
  cases f with
  | atom a => rfl
  | negation g =>
    show negation (if i = 0 then new.map h else g.map h) = negation ((if i = 0 then new else g).map h)
    rw [apply_ite (map h)]
  | binary c g g' =>
    show binary c (if i = 0 then new.map h else g.map h) (if i = 1 then new.map h else g'.map h)
      = binary c ((if i = 0 then new else g).map h) ((if i = 1 then new else g').map h)
    rw [apply_ite (map h), apply_ite (map h)]

/-- A fragment is replaced in the same place. -/
theorem replace?_map (h : α → β) (path : Path) (f new : Formula α) :
    (f.map h).replace? path (new.map h) = (f.replace? path new).map (map h) := by
  induction path generalizing f with
  | nil => rfl
  | cons i rest ih =>
    rw [replace?_cons, replace?_cons, children_map, List.getElem?_map]
    cases f.children[i]? with
    | none => rfl
    | some child =>
      show ((child.map h).replace? rest (new.map h)).map ((f.map h).setChild i)
        = ((child.replace? rest new).map (f.setChild i)).map (map h)
      rw [ih child, Option.map_map, Option.map_map]
      congr 1
      funext child'
      exact setChild_map h f i child'

end

/-! ## The length of a text -/

section

variable {α : Type} [Leaf α]

omit [Leaf α] in
/-- Brackets make a text no shorter. -/
theorem length_le_bracketed (f : Formula α) (text : String) : text.length ≤ (f.bracketed text).length := by
  unfold bracketed
  split
  · simp only [String.length_append]
    omega
  · exact Nat.le_refl _

/-- An operand is printed shorter than the formula. -/
theorem length_text_of_mem_children {f child : Formula α} (h : child ∈ f.children) :
    child.text.length < f.text.length := by
  cases f with
  | atom a => exact absurd h List.not_mem_nil
  | negation g =>
    obtain rfl := List.mem_singleton.mp h
    have hoperand := length_le_bracketed child child.text
    have hsign : negationToken.length = 1 := rfl
    rw [text, String.length_append]
    omega
  | binary c g g' =>
    have hleft := length_le_bracketed g g.text
    have hright := length_le_bracketed g' g'.text
    have hspace : " ".length = 1 := rfl
    simp only [text, String.length_append]
    simp only [children, List.mem_cons, List.not_mem_nil, or_false] at h
    rcases h with rfl | rfl <;> omega

/-- A fragment is printed no longer than the formula. -/
theorem length_text_le {path : Path} {f g : Formula α} (h : f.fragment? path = some g) :
    g.text.length ≤ f.text.length := by
  induction path generalizing f with
  | nil =>
    obtain rfl := Option.some.inj h
    exact Nat.le_refl _
  | cons i rest ih =>
    obtain ⟨child, hchild, hrest⟩ := Option.bind_eq_some_iff.mp h
    have hoperand := length_text_of_mem_children (List.mem_of_getElem? hchild)
    exact Nat.le_trans (ih hrest) (Nat.le_of_lt hoperand)

/-- **Below the root, a fragment is printed shorter than the formula.** -/
theorem length_text_lt {path : Path} {f g : Formula α} (h : f.fragment? path = some g) (hpath : path ≠ []) :
    g.text.length < f.text.length := by
  cases path with
  | nil => exact absurd rfl hpath
  | cons i rest =>
    obtain ⟨child, hchild, hrest⟩ := Option.bind_eq_some_iff.mp h
    exact Nat.lt_of_le_of_lt (length_text_le hrest) (length_text_of_mem_children (List.mem_of_getElem? hchild))

end

end Formula

/-! ## The text for one result -/

variable {s fragment : Statement} {path : Path} {d : Draft}

/-- **A finished result is put back into the statement.** -/
theorem exists_whole_of_finished (h : s.fragment? path = some fragment) (hd : d.hasPlaceholder = false) :
    ∃ whole, (Draft.ofStatement s).replace? path d = some whole ∧ splice s path d = whole.text := by
  obtain ⟨new, rfl⟩ := Draft.hasPlaceholder_eq_false_iff.mp hd
  obtain ⟨whole, hwhole⟩ := Option.isSome_iff_exists.mp (show (s.replace? path new).isSome = true by
    rw [Formula.isSome_replace?, h]
    rfl)
  refine ⟨Draft.ofStatement whole, ?_, ?_⟩
  · rw [Draft.ofStatement, Draft.ofStatement, Formula.replace?_map, hwhole]
    rfl
  · rw [Draft.text_ofStatement]
    simp only [splice, Draft.statement?_ofStatement, hwhole]

/-- An unfinished result is given as it stands. -/
theorem splice_of_unfinished (hd : d.hasPlaceholder = true) : splice s path d = d.text := by
  simp only [splice, Draft.statement?_eq_none_iff.mpr hd]

/-- **The text for a result is that of the whole statement exactly at the root or if the result is finished.** -/
theorem splice_whole_iff (h : s.fragment? path = some fragment) (d : Draft) :
    (∃ whole, (Draft.ofStatement s).replace? path d = some whole ∧ splice s path d = whole.text) ↔
      path = [] ∨ d.hasPlaceholder = false := by
  constructor
  · rintro ⟨whole, hwhole, htext⟩
    by_contra hneither
    obtain ⟨hpath, hunfinished⟩ := not_or.mp hneither
    rw [Bool.not_eq_false] at hunfinished
    -- the text would be that of the result and also that of a formula around it
    rw [splice_of_unfinished hunfinished] at htext
    have hlonger := Formula.length_text_lt (Formula.fragment?_replace? hwhole) hpath
    rw [htext] at hlonger
    exact absurd hlonger (Nat.lt_irrefl _)
  · rintro (rfl | hfinished)
    · cases hd : d.hasPlaceholder with
      | false => exact exists_whole_of_finished h hd
      | true => exact ⟨d, rfl, splice_of_unfinished hd⟩
    · exact exists_whole_of_finished h hfinished

/-! ## The texts of a match -/

/-- Every text of the match is that of the whole statement with the result in place of the fragment. -/
def RuleMatch.SplicesWhole (m : RuleMatch) (s : Statement) (path : Path) : Prop :=
  ∀ (k : Nat) (d : Draft), m.derived[k]? = some d →
    ∃ whole, (Draft.ofStatement s).replace? path d = some whole ∧ m.spliced[k]? = some whole.text

/-- What the texts of a match are. -/
structure RuleMatch.Splices (m : RuleMatch) (s : Statement) (path : Path) : Prop where
  /-- There is one text for each result. -/
  length_eq : m.spliced.length = m.derived.length
  /-- For a finished result it is that of the whole statement with the result in place. -/
  finished : ∀ (k : Nat) (d : Draft), m.derived[k]? = some d → d.hasPlaceholder = false →
    ∃ whole, (Draft.ofStatement s).replace? path d = some whole ∧ m.spliced[k]? = some whole.text
  /-- For an unfinished one it is its own text. -/
  unfinished : ∀ (k : Nat) (d : Draft), m.derived[k]? = some d → d.hasPlaceholder = true →
    m.spliced[k]? = some d.text
  /-- So all texts are those of whole statements only at the root or without placeholders. -/
  whole_iff : m.SplicesWhole s path ↔ path = [] ∨ ∀ d ∈ m.derived, d.hasPlaceholder = false

/-- The text at a place of a match is the one for the result at this place. -/
theorem getElem?_spliced {m : RuleMatch} (hspliced : m.spliced = m.derived.map (splice s path)) {k : Nat}
    (hk : m.derived[k]? = some d) {text : String} : m.spliced[k]? = some text ↔ splice s path d = text := by
  rw [hspliced, List.getElem?_map, hk, Option.map_some, Option.some.injEq]

/-- All texts of a match are those of whole statements exactly at the root or if all results are finished. -/
theorem RuleMatch.splicesWhole_iff {m : RuleMatch} (h : s.fragment? path = some fragment)
    (hspliced : m.spliced = m.derived.map (splice s path)) :
    m.SplicesWhole s path ↔ path = [] ∨ ∀ d ∈ m.derived, d.hasPlaceholder = false := by
  constructor
  · intro hwhole
    by_cases hpath : path = []
    · exact .inl hpath
    · refine .inr fun d hd => ?_
      obtain ⟨k, hk⟩ := List.getElem?_of_mem hd
      obtain ⟨whole, hreplace, htext⟩ := hwhole k d hk
      rw [getElem?_spliced hspliced hk] at htext
      exact ((splice_whole_iff h d).mp ⟨whole, hreplace, htext⟩).resolve_left hpath
  · intro hfinished k d hk
    have hone : path = [] ∨ d.hasPlaceholder = false :=
      hfinished.imp_right fun hall => hall d (List.mem_of_getElem? hk)
    obtain ⟨whole, hreplace, htext⟩ := (splice_whole_iff h d).mpr hone
    exact ⟨whole, hreplace, (getElem?_spliced hspliced hk).mpr htext⟩

/-- **A match puts back the results without placeholder and no others**, whatever the catalogue. -/
theorem searchRules_splices (c : Catalogue Statement) (medium : Medium) (e : Explanation)
    (h : s.fragment? path = some fragment) :
    ∃ found e', c.searchRules medium s path e = .ok (found, e') ∧ ∀ m ∈ found, m.Splices s path := by
  obtain ⟨e', hfound⟩ := c.searchRules_of_fragment? medium e h
  refine ⟨_, e', hfound, ?_⟩
  intro m hm
  obtain ⟨rule, _, hmatch⟩ := List.mem_filterMap.mp hm
  obtain ⟨_, hspliced, _⟩ := ReplacementRule.match?_eq_some hmatch
  constructor
  case length_eq => rw [hspliced, List.length_map]
  case finished =>
    intro k d hk hd
    obtain ⟨whole, hreplace, htext⟩ := exists_whole_of_finished h hd
    exact ⟨whole, hreplace, (getElem?_spliced hspliced hk).mpr htext⟩
  case unfinished =>
    intro k d hk hd
    exact (getElem?_spliced hspliced hk).mpr (splice_of_unfinished hd)
  case whole_iff => exact RuleMatch.splicesWhole_iff h hspliced

/-- A rule with two pairs, of which the first exchanges a variable for another: two results have a placeholder
    and one has none. -/
theorem searchRules_splices_exchanged :
    ∃ c s fragment, Catalogue.parse ⟨[], [⟨"Exchange", "Ex", [("P & Q", "R & P"), ("P & Q", "Q & P")]⟩]⟩ = .ok c ∧
      Statement.parse "~(A & B)" = .ok s ∧ s.fragment? [0] = some fragment ∧
      ∃ found e', c.searchRules .plain s [0] {} = .ok (found, e') ∧
        found.map RuleMatch.spliced = [["% & A", "B & %", "~(B & A)"]] ∧ ∀ m ∈ found, m.Splices s [0] := by
  let P : Statement := .atom ⟨"P"⟩
  let Q : Statement := .atom ⟨"Q"⟩
  let rule : ReplacementRule Statement := ⟨"Exchange", "Ex",
    [(.binary .conjunction P Q, .binary .conjunction (.atom ⟨"R"⟩) P),
      (.binary .conjunction P Q, .binary .conjunction Q P)]⟩
  let fragment : Statement := .binary .conjunction (.atom ⟨"A"⟩) (.atom ⟨"B"⟩)
  have hpath : (Formula.negation fragment).fragment? [0] = some fragment := rfl
  obtain ⟨found, e', hfound, hsplices⟩ := searchRules_splices ⟨[], [rule]⟩ .plain {} hpath
  have htexts : (Catalogue.searchRules ⟨[], [rule]⟩ .plain (.negation fragment) [0] {}).toOption.map
      (·.1.map RuleMatch.spliced) = some [["% & A", "B & %", "~(B & A)"]] := rfl
  rw [hfound] at htexts
  exact ⟨⟨[], [rule]⟩, .negation fragment, fragment, rfl, rfl, hpath, found, e', hfound, Option.some.inj htexts,
    hsplices⟩

/-- Below the root an unfinished result stands alone: in `~(A & B)` a fragment becomes `% & A`, and so does the
    text that is meant to show the whole statement. -/
theorem not_splicesWhole_exchanged :
    ∃ c s m, Catalogue.parse ⟨[], [⟨"Swap", "Sw", [("P & Q", "R & P")]⟩]⟩ = .ok c ∧
      Statement.parse "~(A & B)" = .ok s ∧
      (∃ e', c.searchRules .plain s [0] {} = .ok ([m], e')) ∧
      m.derived.map Formula.text = ["% & A", "B & %"] ∧ m.spliced = ["% & A", "B & %"] ∧
      ¬m.SplicesWhole s [0] := by
  let P : Statement := .atom ⟨"P"⟩
  let rule : ReplacementRule Statement := ⟨"Swap", "Sw",
    [(.binary .conjunction P (.atom ⟨"Q"⟩), .binary .conjunction (.atom ⟨"R"⟩) P)]⟩
  let A : Draft := .atom (some ⟨"A"⟩)
  let B : Draft := .atom (some ⟨"B"⟩)
  let results : List Draft :=
    [.binary .conjunction Draft.placeholder A, .binary .conjunction B Draft.placeholder]
  refine ⟨⟨[], [rule]⟩, .negation (.binary .conjunction (.atom ⟨"A"⟩) (.atom ⟨"B"⟩)),
    ⟨rule, results, ["% & A", "B & %"]⟩, rfl, rfl, ⟨_, rfl⟩, rfl, rfl, ?_⟩
  intro hwhole
  obtain ⟨whole, hreplace, htext⟩ := hwhole 0 _ rfl
  obtain rfl := Option.some.inj hreplace
  exact absurd htext (by decide)

end Sentential
