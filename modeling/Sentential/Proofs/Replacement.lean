import Sentential.Proofs.Fragments
import Sentential.Proofs.Joining
import Sentential.Proofs.Printing
import Sentential.Proofs.Validity

/-!
# `Sentential.Proofs.Replacement` — replacing in place preserves meaning

A rule turns a fragment into an equivalent one with the same symbols. Put back in its place, this turns the
whole statement into an equivalent one with the same symbols (`RewritesTo`), whose text is read back as it
was printed. So whoever reads the results of a search gets statements that no interpretation tells from the
one searched, and no truth table does.

## Contents
* `Statement.Indistinguishable` — same symbols, same values, equivalent in every joint table
* `RewritesTo` — a result in place of a fragment
* `ReplacementRule.derived_eq`, `rewritesTo_of_mem_derived` — the results of one rule
* `Catalogue.searchRules_eq_ok`, `rewritesTo_of_mem_found` — what a search finds
* `RuleMatch.PreservesMeaning`, `searchRules_preserves` — the results of a search with the usual catalogue
-/

namespace Sentential

/-! ## Statements that nothing tells apart -/

/-- No interpretation and no joint table tells the statements apart. -/
structure Statement.Indistinguishable (f g : Statement) : Prop where
  /-- They have the same symbols. -/
  mem_symbols : ∀ s, s ∈ g.symbols ↔ s ∈ f.symbols
  /-- They have the same value under every interpretation that assigns these symbols. -/
  evaluate : ∀ i : Interpretation, i.Assigns f → ∃ v, i.evaluate f = some v ∧ i.evaluate g = some v
  /-- Both views of their joint table show them to be equivalent, if the limit allows for their symbols. -/
  jointTable : ∀ (limit : Limit) (isArgument : Bool) (t u : Sentence), t.statement = f → u.statement = g →
    f.symbols.length ≤ limit.enforced →
    ∃ views, Sentential.jointTable limit isArgument [t, u] = .ok views ∧
      views.detailed.comparison.relation = .equivalent ∧ views.simple.comparison.relation = .equivalent

/-- Two sentences have the symbols of one of their statements, if both statements have the same. -/
theorem perm_symbolsOf_pair {t u : Sentence} (h : ∀ s, s ∈ u.statement.leaves ↔ s ∈ t.statement.leaves) :
    (symbolsOf [t, u]).Perm t.statement.symbols := by
  refine (List.perm_ext_iff_of_nodup (nodup_distinct _) (nodup_distinct _)).mpr fun s => ?_
  simp only [mem_distinct, List.flatMap_cons, List.flatMap_nil, List.append_nil, List.mem_append, h, or_self]

/-- **Equivalent statements with the same symbols** are not told apart. -/
theorem Statement.Equivalent.indistinguishable {f g : Statement} (h : Equivalent f g)
    (hleaves : ∀ s, s ∈ g.leaves ↔ s ∈ f.leaves) : Indistinguishable f g := by
  have hsymbols : ∀ s, s ∈ g.symbols ↔ s ∈ f.symbols := by
    intro s
    unfold Formula.symbols
    rw [mem_distinct, mem_distinct, hleaves s]
  refine ⟨hsymbols, fun i hi => h.evaluate hsymbols hi, ?_⟩
  rintro limit isArgument t u rfl rfl hlimit
  -- the table is over the symbols of both, but these are the symbols of one
  have hcolumn : jointColumn [t, u] u.statement = jointColumn [t, u] t.statement := (column_congr h).symm
  rw [← (perm_symbolsOf_pair hleaves).length_eq] at hlimit
  obtain ⟨views, hviews, hshow⟩ := jointTable_shows isArgument (by simp) hlimit
  have hdetailed := hshow.detailed
  have hsimple := hshow.simple
  simp only [List.map_cons, List.map_nil, hcolumn] at hdetailed hsimple
  exact ⟨views, hviews, comparison_of_shows hdetailed, comparison_of_shows hsimple⟩

/-! ## A result in its place -/

/-- With the result in place of the fragment at a path, the statement becomes an equivalent one with the same
    symbols. -/
structure RewritesTo (statement : Statement) (path : Path) (result : Draft) (whole : Statement) : Prop where
  replaced : ∃ new, result = Draft.ofStatement new ∧ statement.replace? path new = some whole
  equivalent : Statement.Equivalent statement whole
  mem_leaves : ∀ s, s ∈ whole.leaves ↔ s ∈ statement.leaves

namespace RewritesTo

variable {statement whole : Statement} {path : Path} {result : Draft}

/-- The statement with the result in place is spliced. -/
theorem splice_eq (h : RewritesTo statement path result whole) :
    splice statement path result = whole.text := by
  obtain ⟨new, rfl, hwhole⟩ := h.replaced
  simp only [splice, Draft.statement?_ofStatement, hwhole]

/-- It can be written if the statement can. -/
theorem writable (h : RewritesTo statement path result whole) (hs : Statement.Writable statement) :
    Statement.Writable whole :=
  fun s hmem => hs s ((h.mem_leaves s).mp hmem)

/-- What is spliced is read back. -/
theorem parse (h : RewritesTo statement path result whole) (hs : Statement.Writable statement) :
    Statement.parse (splice statement path result) = .ok whole := by
  rw [h.splice_eq]
  exact Statement.parse_text_of_writable (h.writable hs)

end RewritesTo

/-! ## The results of a search -/

/-- A match of a rule lists the results of its uses, and the statement with each in place. -/
theorem ReplacementRule.match?_eq_some {rule : ReplacementRule Statement} {statement fragment : Statement}
    {path : Path} {m : RuleMatch} (h : rule.match? statement path fragment = some m) :
    m.rule = rule ∧ m.spliced = m.derived.map (splice statement path) ∧
      ∀ d ∈ m.derived, ∃ r ∈ rule.uses fragment, d = r.result := by
  unfold ReplacementRule.match? at h
  split at h
  · exact absurd h (by simp)
  · obtain rfl := Option.some.inj h
    refine ⟨rfl, rfl, ?_⟩
    intro d hd
    obtain ⟨r, hr, hrd⟩ := List.mem_map.mp ((distinctBy_sublist _ _).mem hd)
    exact ⟨r, hr, hrd.symm⟩

/-- The results are those of the uses, without those whose text has occurred. -/
theorem ReplacementRule.derived_eq {rule : ReplacementRule Statement} {statement fragment : Statement} {path : Path}
    {m : RuleMatch} (h : rule.match? statement path fragment = some m) :
    m.derived = distinctBy Formula.text ((rule.uses fragment).map Replacement.result) := by
  unfold match? at h
  split at h
  · exact absurd h (by simp)
  · obtain rfl := Option.some.inj h
    rfl

/-- **Every result of a valid and balanced rule rewrites the statement.** -/
theorem ReplacementRule.rewritesTo_of_mem_derived {rule : ReplacementRule Statement}
    {statement fragment : Statement} {path : Path} {m : RuleMatch} {d : Draft} (hvalid : rule.Valid)
    (hbalanced : rule.Balanced) (hpath : statement.fragment? path = some fragment)
    (h : rule.match? statement path fragment = some m) (hd : d ∈ m.derived) :
    ∃ whole, RewritesTo statement path d whole := by
  obtain ⟨_, _, hderived⟩ := match?_eq_some h
  obtain ⟨r, hr, rfl⟩ := hderived d hd
  obtain ⟨new, hnew, hequivalent, hleaves⟩ := finished_of_mem_uses hvalid hbalanced hr
  -- what a path leads to can be replaced there
  obtain ⟨around, _, hreplace⟩ := Statement.exists_surrounding hpath
  refine ⟨around.fill new, ⟨new, hnew, hreplace new⟩, ?_, ?_⟩
  · exact Statement.replace?_equivalent hpath (hreplace new) hequivalent
  · exact Statement.mem_leaves_replace? hpath (hreplace new) hleaves

/-- A search at a path in the statement succeeds. -/
theorem Catalogue.searchRules_of_fragment? (c : Catalogue Statement) (medium : Medium) (e : Explanation)
    {statement fragment : Statement} {path : Path} (h : statement.fragment? path = some fragment) :
    ∃ e', c.searchRules medium statement path e =
      .ok (c.rules.filterMap (·.match? statement path fragment), e') := by
  unfold searchRules
  rw [h]
  exact ⟨_, rfl⟩

/-- A search finds what its rules match, at a path in the statement. -/
theorem Catalogue.searchRules_eq_ok {c : Catalogue Statement} {medium : Medium} {statement : Statement}
    {path : Path} {e e' : Explanation} {found : List RuleMatch}
    (h : c.searchRules medium statement path e = .ok (found, e')) :
    ∃ fragment, statement.fragment? path = some fragment ∧
      ∀ m ∈ found, ∃ rule ∈ c.rules, rule.match? statement path fragment = some m := by
  unfold searchRules at h
  split at h
  · exact absurd h (by simp)
  · rename_i fragment hfragment
    obtain ⟨rfl, _⟩ := Prod.mk.inj (Except.ok.inj h)
    exact ⟨fragment, hfragment, fun m hm => List.mem_filterMap.mp hm⟩

/-- What the usual rules find rewrites the statement. -/
theorem rewritesTo_of_mem_found {medium : Medium} {statement : Statement} {path : Path}
    {e e' : Explanation} {found : List RuleMatch}
    (h : Catalogue.standard.searchRules medium statement path e = .ok (found, e')) {m : RuleMatch}
    (hm : m ∈ found) :
    m.spliced = m.derived.map (splice statement path) ∧
      ∀ d ∈ m.derived, ∃ whole, RewritesTo statement path d whole := by
  obtain ⟨fragment, hpath, hfound⟩ := Catalogue.searchRules_eq_ok h
  obtain ⟨rule, hrule, hmatch⟩ := hfound m hm
  refine ⟨(ReplacementRule.match?_eq_some hmatch).2.1, fun d hd => ?_⟩
  exact ReplacementRule.rewritesTo_of_mem_derived (Catalogue.standardRules_valid rule hrule)
    (Catalogue.standardRules_balanced rule hrule) hpath hmatch hd

/-- A match of a rule preserves the meaning of the statement searched. -/
structure RuleMatch.PreservesMeaning (m : RuleMatch) (s : Statement) (path : Path) : Prop where
  /-- There is one text for each result. -/
  length_eq : m.derived.length = m.spliced.length
  /-- No result has a placeholder. -/
  finished : ∀ d ∈ m.derived, d.hasPlaceholder = false
  /-- A text is read as the statement with its result in place, and the two are not told apart. -/
  spliced : ∀ (k : Nat) (text : String), m.spliced[k]? = some text →
    ∃ (d : Draft) (new whole : Statement), m.derived[k]? = some d ∧ d.statement? = some new ∧
      s.replace? path new = some whole ∧ Statement.parse text = .ok whole ∧
      Statement.Indistinguishable s whole

/-- **Replacement rules preserve meaning in place.** A search with the usual catalogue at a path in a
    statement succeeds, and every match that it finds preserves the statement's meaning. -/
theorem searchRules_preserves (medium : Medium) (e : Explanation) {s fragment : Statement} {path : Path}
    (hs : Statement.Writable s) (hpath : s.fragment? path = some fragment) :
    ∃ found e', Catalogue.standard.searchRules medium s path e = .ok (found, e') ∧
      ∀ m ∈ found, m.PreservesMeaning s path := by
  have hsearch : ∃ found e', Catalogue.standard.searchRules medium s path e = .ok (found, e') := by
    unfold Catalogue.searchRules
    rw [hpath]
    exact ⟨_, _, rfl⟩
  obtain ⟨found, e', hfound⟩ := hsearch
  refine ⟨found, e', hfound, ?_⟩
  intro m hm
  obtain ⟨hspliced, hderived⟩ := rewritesTo_of_mem_found hfound hm
  refine ⟨?_, ?_, ?_⟩
  · rw [hspliced, List.length_map]
  · intro d hd
    obtain ⟨whole, hwhole⟩ := hderived d hd
    obtain ⟨new, rfl, _⟩ := hwhole.replaced
    rw [← Bool.not_eq_true, ← Draft.statement?_eq_none_iff, Draft.statement?_ofStatement]
    exact Option.some_ne_none new
  · intro k text htext
    rw [hspliced, List.getElem?_map, Option.map_eq_some_iff] at htext
    obtain ⟨d, hd, rfl⟩ := htext
    obtain ⟨whole, hwhole⟩ := hderived d (List.mem_of_getElem? hd)
    obtain ⟨new, rfl, hreplace⟩ := hwhole.replaced
    exact ⟨Draft.ofStatement new, new, whole, hd, Draft.statement?_ofStatement new, hreplace,
      hwhole.parse hs, hwhole.equivalent.indistinguishable hwhole.mem_leaves⟩

open Pattern in
/-- There are matches in `~(P > Q)` at the conditional. -/
theorem searchRules_preserves_conditional :
    ∃ found e', Catalogue.standard.searchRules .plain (neg (cond P Q)) [0] {} = .ok (found, e') ∧
      found ≠ [] ∧ ∀ m ∈ found, m.PreservesMeaning (neg (cond P Q)) [0] := by
  have hwritable : Statement.Writable (neg (cond P Q)) := by decide
  have hpath : (neg (cond P Q)).fragment? [0] = some (cond P Q) := rfl
  obtain ⟨found, e', hfound, hpreserves⟩ := searchRules_preserves .plain {} hwritable hpath
  refine ⟨found, e', hfound, ?_, hpreserves⟩
  have hsome : (Catalogue.standard.searchRules .plain (neg (cond P Q)) [0] {}).toOption.map (·.1.isEmpty)
      = some false := by
    decide +kernel
  rintro rfl
  rw [hfound] at hsome
  exact absurd hsome (by simp [Except.toOption])

end Sentential
