import Sentential.Proofs.Replacement
import Sentential.Proofs.Selections

/-!
# `Sentential.Proofs.Texts` — results listed by their texts

A search lists results with one text once. That this hides no result is a property of the printer: drafts with
one text are one draft (`Draft.eq_of_text_eq`). For statements it follows from the reader, which gives them back;
but no reader gives back a draft with placeholders. So the placeholders are filled first. A single letter in the
place of every `%` turns the text of a draft into the text of the filled draft, and two letters are enough to tell
a placeholder from a symbol.

So a list of results by text is the list of distinct results, whatever the catalogue and whatever is bound,
because the symbols of a result are those of the statements searched.

## Contents
* `Draft.toList_text_fill` — the text of a draft filled with a letter
* `Draft.eq_of_fill_eq`, `eq_of_text_eq` — a draft is known from two fillings, hence from its text
* `ListsOnce`, `listsOnce_distinctBy` — a list of distinct results
* `ReplacementRule.rewrites` — the fragment rewritten in each direction that matches
* `Catalogue.search_listsOnce` — the results of every match of every search
-/

namespace Sentential

/-! ## Drafts with one text -/

namespace Draft

/-- A character of a text after the placeholders were filled with a letter. -/
def filledChar (letter c : Char) : Char := if c = '%' then letter else c

theorem map_filledChar {letter : Char} {cs : List Char} (h : '%' ∉ cs) : cs.map (filledChar letter) = cs := by
  have hsame : ∀ c ∈ cs, filledChar letter c = id c := by
    intro c hc
    have hne : c ≠ '%' := fun heq => h (heq ▸ hc)
    exact if_neg hne
  rw [List.map_congr_left hsame, List.map_id]

theorem isBinary_fill_atom (d : Draft) (s : Symbol) : (d.fill (.atom s)).isBinary = d.isBinary := by
  cases d with
  | atom a => cases a <;> rfl
  | negation f => rfl
  | binary c f g => rfl

/-- **Filling a draft with a letter is putting the letter for every `%` of its text.** -/
theorem toList_text_fill {d : Draft} (hd : d.Writable) (letter : Char) :
    (d.fill (.atom ⟨String.singleton letter⟩)).text.toList = d.text.toList.map (filledChar letter) := by
  have hbracketed : ∀ {f : Draft} {filled text : String}, filled.toList = text.toList.map (filledChar letter) →
      ((f.fill (.atom ⟨String.singleton letter⟩)).bracketed filled).toList =
        (f.bracketed text).toList.map (filledChar letter) := by
    intro f filled text h
    unfold Formula.bracketed
    rw [isBinary_fill_atom]
    split
    · simp [h, filledChar]
    · exact h
  induction d with
  | atom a =>
    rw [fill_atom]
    cases a with
    | none =>
      show (String.singleton letter).toList = ['%'].map (filledChar letter)
      simp [filledChar]
    | some s =>
      have hs : s.Writable := hd s (by simp [Formula.leaves])
      exact (map_filledChar hs.placeholder_not_mem).symm
  | negation f ih =>
    have hoperand := hbracketed (f := f) (ih hd)
    have hsign : negationToken.toList.map (filledChar letter) = negationToken.toList := rfl
    simp only [fill_negation, Formula.text, String.toList_append, List.map_append, hoperand, hsign]
  | binary c f g ihf ihg =>
    have hleft := hbracketed (f := f) (ihf fun s hs => hd s (List.mem_append_left _ hs))
    have hright := hbracketed (f := g) (ihg fun s hs => hd s (List.mem_append_right _ hs))
    have htoken : c.token.toList.map (filledChar letter) = c.token.toList := by cases c <;> rfl
    have hblank : " ".toList.map (filledChar letter) = " ".toList := rfl
    simp only [fill_binary, Formula.text, String.toList_append, List.map_append, hleft, hright, htoken, hblank]

/-- **A draft is known from its fillings with two symbols.** -/
theorem eq_of_fill_eq {s t : Symbol} (hne : s ≠ t) {d d' : Draft} (hs : d.fill (.atom s) = d'.fill (.atom s))
    (ht : d.fill (.atom t) = d'.fill (.atom t)) : d = d' := by
  induction d generalizing d' with
  | atom a =>
    cases d' with
    | atom b =>
      rw [fill_atom, fill_atom] at hs ht
      -- a leaf that is `s` in one filling and `t` in the other was a placeholder
      cases a with
      | none =>
        cases b with
        | none => rfl
        | some y => exact absurd (Formula.atom.inj (hs.trans ht.symm)) hne
      | some x =>
        cases b with
        | none => exact absurd (Formula.atom.inj (hs.symm.trans ht)) hne
        | some y =>
          obtain rfl : x = y := Formula.atom.inj hs
          rfl
    | negation f => simp at hs
    | binary c f g => simp at hs
  | negation f ih =>
    cases d' with
    | atom b => simp at hs
    | negation f' => rw [ih (Formula.negation.inj hs) (Formula.negation.inj ht)]
    | binary c f' g' => simp at hs
  | binary c f g ihf ihg =>
    cases d' with
    | atom b => simp at hs
    | negation f' => simp at hs
    | binary c' f' g' =>
      obtain ⟨rfl, hsf, hsg⟩ := Formula.binary.inj hs
      obtain ⟨_, htf, htg⟩ := Formula.binary.inj ht
      rw [ihf hsf htf, ihg hsg htg]

/-- A draft that can be written, filled with a statement that can, is a statement that can. -/
theorem Writable.fill {d : Draft} (hd : d.Writable) {filling : Statement} (hf : Statement.Writable filling) :
    Statement.Writable (d.fill filling) := by
  intro s hs
  rcases mem_leaves_fill.mp hs with hs | ⟨_, hs⟩
  · exact hd s hs
  · exact hf s hs

/-- **Drafts with one text are one draft**, placeholders included. -/
theorem eq_of_text_eq {d d' : Draft} (hd : d.Writable) (hd' : d'.Writable) (h : d.text = d'.text) : d = d' := by
  have hfill : ∀ letter : Char, Statement.Writable (.atom ⟨String.singleton letter⟩) →
      d.fill (.atom ⟨String.singleton letter⟩) = d'.fill (.atom ⟨String.singleton letter⟩) := by
    intro letter hletter
    apply Statement.eq_of_text_eq (hd.fill hletter) (hd'.fill hletter)
    apply String.toList_injective
    rw [toList_text_fill hd, toList_text_fill hd', h]
  exact eq_of_fill_eq (by decide) (hfill 'A' (by decide)) (hfill 'B' (by decide))

end Draft

/-! ## Lists of distinct results -/

/-- Each result is listed once, under a text of its own. -/
structure ListsOnce (derived results : List Draft) : Prop where
  /-- What is listed are the results. -/
  mem_iff : ∀ d, d ∈ derived ↔ d ∈ results
  /-- They are listed by first occurrence, none of them twice. -/
  ordered : derived.Pairwise fun d d' => results.idxOf d < results.idxOf d'
  /-- No two of them have one text. -/
  texts_nodup : (derived.map Formula.text).Nodup
  /-- With its texts, the list is what comes of entering the results one after another under their texts. -/
  entries : results.foldl (enter Formula.text) [] = derived.map fun d => (d.text, d)

/-- **Results that can be written are listed once** if they are listed by text. -/
theorem listsOnce_distinctBy {results : List Draft} (h : ∀ d ∈ results, d.Writable) :
    ListsOnce (distinctBy Formula.text results) results := by
  have hdistinct : distinctBy Formula.text results = distinct results := by
    apply distinctBy_eq_distinct
    intro d hd d' hd' htext
    exact Draft.eq_of_text_eq (h d hd) (h d' hd') htext
  refine ⟨?_, ?_, ?_, foldl_enter Formula.text results⟩
  · intro d
    rw [hdistinct, mem_distinct]
  · rw [hdistinct]
    exact pairwise_idxOf_distinct results
  · rw [map_distinctBy]
    exact nodup_distinct _

/-! ## The results of a match -/

/-- The results of a form that matches are listed once. -/
theorem ArgumentForm.listsOnce_derived {form : ArgumentForm Statement} {statements : List Statement}
    {m : FormMatch} (h : form.match? statements = some m) (hs : ∀ s ∈ statements, Statement.Writable s) :
    ListsOnce m.derived (form.conclusions.map (substitute · m.bindings)) := by
  rw [derived_eq h]
  apply listsOnce_distinctBy
  intro d hd
  obtain ⟨conclusion, _, rfl⟩ := List.mem_map.mp hd
  exact writable_substitute h hs conclusion

/-- Part of a statement that can be written can be written. -/
theorem Statement.writable_of_fragment? {s fragment : Statement} {path : Path} (hs : Writable s)
    (h : s.fragment? path = some fragment) : Writable fragment :=
  fun x hx => hs x (Formula.mem_leaves_of_fragment? h hx)

namespace ReplacementRule

variable {rule : ReplacementRule Statement} {statement fragment : Statement} {path : Path}

/-- The fragment rewritten in each direction whose pattern it matches. -/
def rewrites (rule : ReplacementRule Statement) (fragment : Statement) : List Draft :=
  rule.directions.filterMap fun direction =>
    (matchPattern direction.1 fragment Assignment.empty).map (substitute direction.2)

/-- The results of the uses are the rewritten fragments. -/
theorem map_result_uses (rule : ReplacementRule Statement) (fragment : Statement) :
    (rule.uses fragment).map Replacement.result = rule.rewrites fragment := by
  unfold uses rewrites
  rw [List.map_filterMap]
  refine List.filterMap_congr fun direction _ => ?_
  cases hmatch : matchPattern direction.1 fragment Assignment.empty with
  | none => simp [hmatch]
  | some b => simp [hmatch]

/-- A result can be written if the fragment can. -/
theorem writable_result (hfragment : Statement.Writable fragment) {r : Replacement}
    (h : r ∈ rule.uses fragment) : r.result.Writable := by
  obtain ⟨_, hmatch, hresult⟩ := mem_uses_iff.mp h
  rw [hresult]
  intro y hy
  exact hfragment y (mem_leaves_substitute_of_matchPattern hmatch hy)

/-- The results of a rule that matches are listed once. -/
theorem listsOnce_derived (hfragment : Statement.Writable fragment) {m : RuleMatch}
    (h : rule.match? statement path fragment = some m) : ListsOnce m.derived (rule.rewrites fragment) := by
  rw [derived_eq h, ← map_result_uses]
  apply listsOnce_distinctBy
  intro d hd
  obtain ⟨r, hr, rfl⟩ := List.mem_map.mp hd
  exact writable_result hfragment hr

/-- No result is hidden by another. -/
theorem mem_derived_of_mem_uses (hfragment : Statement.Writable fragment) {m : RuleMatch}
    (hmatch : rule.match? statement path fragment = some m) {r : Replacement} (h : r ∈ rule.uses fragment) :
    r.result ∈ m.derived := by
  rw [(listsOnce_derived hfragment hmatch).mem_iff, ← map_result_uses]
  exact List.mem_map_of_mem h

end ReplacementRule

/-! ## Every search -/

/-- **Listing results by text neither loses nor merges any.** Drafts whose symbols can be written have one text
    only if they are one draft. So every match that a search finds, with whatever catalogue, lists exactly its
    distinct results: those of its conclusions under its bindings, or those of the fragment in each direction
    that matches. -/
theorem Catalogue.search_listsOnce (c : Catalogue Statement) (medium : Medium) (e : Explanation) :
    (∀ d d' : Draft, d.Writable → d'.Writable → d.text = d'.text → d = d') ∧
      (∀ statements, (∀ s ∈ statements, Statement.Writable s) →
        ∀ m ∈ (c.searchForms medium statements e).1,
          ListsOnce m.derived (m.form.conclusions.map (substitute · m.bindings))) ∧
      (∀ s fragment path, Statement.Writable s → s.fragment? path = some fragment →
        ∃ found e', c.searchRules medium s path e = .ok (found, e') ∧
          ∀ m ∈ found, ListsOnce m.derived (m.rule.rewrites fragment)) := by
  refine ⟨fun d d' => Draft.eq_of_text_eq, ?_, ?_⟩
  · intro statements hs m hm
    obtain ⟨_, hmatch⟩ := exists_of_mem_searchForms hm
    exact ArgumentForm.listsOnce_derived hmatch hs
  · intro s fragment path hs hpath
    obtain ⟨e', hfound⟩ := c.searchRules_of_fragment? medium e hpath
    refine ⟨_, e', hfound, ?_⟩
    intro m hm
    obtain ⟨rule, _, hmatch⟩ := List.mem_filterMap.mp hm
    obtain ⟨rfl, _, _⟩ := ReplacementRule.match?_eq_some hmatch
    exact ReplacementRule.listsOnce_derived (Statement.writable_of_fragment? hs hpath) hmatch

/-- A form that concludes the same twice and introduces a variable, a statement named as disjunction is printed,
    and a rule whose two directions agree on the fragment. -/
theorem Catalogue.search_listsOnce_twice :
    ∃ c, Catalogue.parse ⟨[⟨"Weakening", "W", ["P"], ["P v Q", "P", "P v R", "P v P"]⟩],
        [⟨"Commutation", "Com", [("P & Q", "Q & P")]⟩]⟩ = .ok c ∧
      ∃ s t fragment, Statement.parse "v" = .ok s ∧ Statement.parse "~(v & v)" = .ok t ∧
        t.fragment? [0] = some fragment ∧
        (∃ m ∈ (c.searchForms .plain [s] {}).1, m.derived.map Formula.text = ["v v %", "v", "v v v"] ∧
          ListsOnce m.derived (m.form.conclusions.map (substitute · m.bindings))) ∧
        ∃ found e', c.searchRules .plain t [0] {} = .ok (found, e') ∧
          found.map (fun m => m.derived.map Formula.text) = [["v & v"]] ∧
          ∀ m ∈ found, ListsOnce m.derived (m.rule.rewrites fragment) := by
  let form : ArgumentForm Statement := ⟨"Weakening", "W", [.atom ⟨"P"⟩],
    [.binary .disjunction (.atom ⟨"P"⟩) (.atom ⟨"Q"⟩), .atom ⟨"P"⟩,
      .binary .disjunction (.atom ⟨"P"⟩) (.atom ⟨"R"⟩), .binary .disjunction (.atom ⟨"P"⟩) (.atom ⟨"P"⟩)]⟩
  let rule : ReplacementRule Statement := ⟨"Commutation", "Com",
    [(.binary .conjunction (.atom ⟨"P"⟩) (.atom ⟨"Q"⟩), .binary .conjunction (.atom ⟨"Q"⟩) (.atom ⟨"P"⟩))]⟩
  let s : Statement := .atom ⟨"v"⟩
  let fragment : Statement := .binary .conjunction s s
  obtain ⟨_, hforms, hrules⟩ := search_listsOnce ⟨[form], [rule]⟩ .plain {}
  obtain ⟨m, hm, htexts⟩ : ∃ m ∈ (Catalogue.searchForms ⟨[form], [rule]⟩ .plain [s] {}).1,
      m.derived.map Formula.text = ["v v %", "v", "v v v"] :=
    ⟨_, List.mem_cons_self, rfl⟩
  obtain ⟨found, e', hfound, hlists⟩ := hrules (.negation fragment) fragment [0] (by decide) rfl
  have hresults : (Catalogue.searchRules ⟨[form], [rule]⟩ .plain (.negation fragment) [0] {}).toOption.map
      (·.1.map fun m => m.derived.map Formula.text) = some [["v & v"]] := rfl
  rw [hfound] at hresults
  exact ⟨⟨[form], [rule]⟩, rfl, s, .negation fragment, fragment, rfl, rfl, rfl,
    ⟨m, hm, htexts, hforms [s] (by decide) m hm⟩, found, e', hfound, Option.some.inj hresults, hlists⟩

end Sentential
