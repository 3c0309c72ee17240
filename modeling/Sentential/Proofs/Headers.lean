import Sentential.Proofs.Layout
import Sentential.Proofs.Spacing

/-!
# `Sentential.Proofs.Headers` — the headers of a table spell out its sentence

The headers of the detailed view are the tokens of the sentence in writing order, with each bracket glued to
the header next to it. Glueing loses nothing and moves nothing past another token (`flatMap_headers`), on
whichever header a group begins or ends and however many groups do so there. The header of the result is the
text with normal spacing, which is the tokens with spaces between them (`filter_text`). And the source is the
tokens with blanks between them (`Written.filter_blanks`). No token holds a blank, so without their blanks all
three are the same characters.

In a joint table the columns of a sentence are those between two separators.

## Contents
* `Text.without` — a text without the characters of a class
* `Sentence.flatMap_headers`, `Sentence.filter_text`, `Written.filter_blanks` — headers, text and source as tokens
* `Spells`, `ResultSpells` — the columns of a sentence are headed by its source
* `AreViews.spell` — both views of one sentence
* `Sentence.tables_spell` — the table of one sentence, and that of several
-/

namespace Sentential

open Text

/-- The text without the characters of a class. -/
def Text.without (cut : Char → Bool) (text : String) : String :=
  String.ofList (text.toList.filter fun c => !cut c)

/-! ## Brackets glued to headers -/

/-- A bracket in front of the first header is in front of all of them. -/
theorem flatMap_glueFirst (c : Char) {texts : List String} (hne : texts ≠ []) :
    (glueFirst c texts).flatMap String.toList = c :: texts.flatMap String.toList := by
  cases texts with
  | nil => exact absurd rfl hne
  | cons first rest =>
    simp only [glueFirst, Char.toString, List.flatMap_cons, String.toList_append, String.toList_singleton,
      List.cons_append, List.nil_append]

/-- A bracket behind the last header is behind all of them. -/
theorem flatMap_glueLast (c : Char) {texts : List String} (hne : texts ≠ []) :
    (glueLast c texts).flatMap String.toList = texts.flatMap String.toList ++ [c] := by
  fun_induction glueLast c texts with
  | case1 => exact absurd rfl hne
  | case2 last => simp only [List.flatMap_singleton, String.toList_push]
  | case3 first rest hrest ih =>
    rw [List.flatMap_cons, ih hrest, List.flatMap_cons, List.append_assoc]

namespace Sentence

/-- Every sentence has a header. -/
theorem headers_ne_nil (t : Sentence) : t.headers ≠ [] := by
  have hroot : t.root ∈ t.nodes := List.count_pos_iff.mp (by rw [t.count_root]; exact Nat.one_pos)
  rw [← List.length_pos_iff, t.length_headers]
  exact List.length_pos_of_mem hroot

/-- **The headers are the tokens**, one behind the other. -/
theorem flatMap_headers (t : Sentence) : t.headers.flatMap String.toList = t.tokens.flatten := by
  induction t with
  | symbol s => rfl
  | negation g t ih => rw [headers, tokens, List.flatMap_cons, List.flatten_cons, ih]
  | binary c g l r ihl ihr =>
    rw [headers, tokens, List.flatMap_append, List.flatMap_cons, List.flatten_append, List.flatten_cons, ihl,
      ihr]
  | group o t c ih =>
    -- the opening bracket is glued first, so that there is still a header for the closing one
    have hopened : glueFirst o t.headers ≠ [] := by
      rw [← List.length_pos_iff, length_glueFirst]
      exact List.length_pos_iff.mpr t.headers_ne_nil
    rw [headers, flatMap_glueLast c hopened, flatMap_glueFirst o t.headers_ne_nil, ih, tokens,
      List.flatten_append, List.flatten_cons]
    rfl

/-! ## Texts without blanks -/

/-- The text is the tokens with spaces between them. -/
theorem filter_text {cut : Char → Bool} (hspace : cut ' ' = true) {t : Sentence}
    (h : ∀ part ∈ t.tokens, ∀ c ∈ part, cut c = false) :
    t.text.toList.filter (fun c => !cut c) = t.tokens.flatten := by
  have hkept : ∀ part ∈ t.tokens, part.filter (fun c => !cut c) = part := by
    intro part hpart
    refine List.filter_eq_self.mpr fun c hc => ?_
    rw [h part hpart c hc]
    rfl
  have hcut : " ".toList.filter (fun c => !cut c) = [] := by simp [hspace]
  clear h
  induction t with
  | symbol s => simpa [tokens, text] using hkept
  | negation g t ih =>
    obtain ⟨hg, ht⟩ := List.forall_mem_cons.mp hkept
    rw [text, tokens, String.toList_append, List.filter_append, hg, ih ht, List.flatten_cons]
  | binary c g l r ihl ihr =>
    obtain ⟨hl, hright⟩ := List.forall_mem_append.mp hkept
    obtain ⟨hg, hr⟩ := List.forall_mem_cons.mp hright
    simp only [text, tokens, String.toList_append, List.filter_append, hcut, hg, ihl hl, ihr hr,
      List.flatten_append, List.flatten_cons, List.nil_append, List.append_assoc]
  | group o t c ih =>
    obtain ⟨hopener, hcloser⟩ := List.forall_mem_append.mp hkept
    obtain ⟨ho, ht⟩ := List.forall_mem_cons.mp hopener
    have hc := hcloser [c] List.mem_cons_self
    simp only [text, tokens, String.toList_append, Char.toString, String.toList_singleton, List.filter_append,
      ho, hc, ih ht, List.flatten_append, List.flatten_cons, List.flatten_nil, List.append_nil]

end Sentence

/-- What is written is the tokens with blanks between them. -/
theorem Written.filter_blanks {parts : List Token} {cs : List Char} (h : Written parts cs)
    (hparts : ∀ part ∈ parts, ∀ c ∈ part, isBlank c = false) :
    cs.filter (fun c => !isBlank c) = parts.flatten := by
  induction h with
  | tail hblank => simpa using hblank
  | @part gap part parts rest hgap hend hrest ih =>
    obtain ⟨hpart, hparts⟩ := List.forall_mem_cons.mp hparts
    have hblanks : gap.filter (fun c => !isBlank c) = [] := by simpa using hgap
    have hkept : part.filter (fun c => !isBlank c) = part := by simpa using hpart
    rw [List.filter_append, List.filter_append, hblanks, hkept, ih hparts, List.nil_append, List.flatten_cons]

/-! ## The columns of a sentence -/

/-- The headers of the columns make up the source without its blanks. -/
def Spells (source : String) (columns : List Column) : Prop :=
  String.join (columns.map Column.header) = without isBlank source

/-- The header of the last column is the source without its blanks, but for spaces. -/
def ResultSpells (source : String) (columns : List Column) : Prop :=
  ∃ result, columns.getLast? = some result ∧ without (· == ' ') result.header = without isBlank source

variable {source : String} {t : Sentence}

/-- What was read, without its blanks, is its tokens. -/
theorem Sentence.without_blanks (h : parse source = .ok t) :
    without isBlank source = String.ofList t.tokens.flatten := by
  obtain ⟨ht, hwritten⟩ := written_of_parse h
  rw [without, hwritten.filter_blanks ht.isBlank_of_mem_tokens]

/-- **Either view of a sentence spells out what it was read from.** -/
theorem AreViews.spell {constants : Assignment (Array Bool)} {height : Nat} {views : Table × Table}
    (hare : AreViews constants height t views) (h : Sentence.parse source = .ok t) :
    Spells source views.1.columns ∧ ResultSpells source views.2.columns := by
  obtain ⟨b, hb, rfl⟩ := hare
  have htokens := (Sentence.written_of_parse h).1.isBlank_of_mem_tokens
  constructor
  · have hheaders : (b.detailed t).columns.map Column.header = t.headers := Block.headers_detailed hb.length_columns
    rw [Spells, hheaders, Sentence.without_blanks h, ← t.flatMap_headers, ← String.toList_join,
      String.ofList_toList]
  · refine ⟨.values t.text b.main, by simp [Block.simple], ?_⟩
    have hspaces : ∀ part ∈ t.tokens, ∀ c ∈ part, (c == ' ') = false := by
      intro part hpart c hc
      have hblank := htokens part hpart c hc
      refine beq_eq_false_iff_ne.mpr ?_
      rintro rfl
      exact absurd hblank (by decide)
    rw [Sentence.without_blanks h, without, Column.header, Sentence.filter_text rfl hspaces]

/-! ## Tables -/

/-- **The headers of a table spell out the texts that its sentences were read from.** In the table of one
    sentence they do so from the first column to the last; in a joint table, from one separator to the next. -/
theorem Sentence.tables_spell {limit : Limit} :
    (∀ source t, parse source = .ok t → t.symbols.length ≤ limit.enforced →
      ∃ views, t.table limit = .ok views ∧
        Spells source views.detailed.columns ∧ ResultSpells source views.simple.columns) ∧
    ∀ isArgument sources sentences, List.Forall₂ (fun source t => parse source = .ok t) sources sentences →
      sentences ≠ [] → (symbolsOf sentences).length ≤ limit.enforced →
      ∃ joint, jointTable limit isArgument sentences = .ok joint ∧
        List.Forall₂ Spells sources (joint.detailed.columns.splitOnP Column.isSeparator) ∧
        List.Forall₂ ResultSpells sources (joint.simple.columns.splitOnP Column.isSeparator) := by
  constructor
  · intro source t h hlimit
    obtain ⟨b, hb, htable⟩ := table_eq_ok hlimit
    have hare : AreViews (constantColumns t.symbols) (rowTotal t.symbols.length) t
        (b.detailed t, b.simple (constantColumns t.symbols) t) := ⟨b, hb, rfl⟩
    exact ⟨_, htable, hare.spell h⟩
  · intro isArgument sources sentences h hne hlimit
    obtain ⟨views, hviews, htable⟩ := jointTable_views isArgument hne hlimit
    have hare := hviews.imp fun t v h => h.2
    obtain ⟨hsome, hsingle⟩ := isSingle_of_views hne hare
    have hspell : List.Forall₂ (fun source (v : Table × Table) =>
        Spells source v.1.columns ∧ ResultSpells source v.2.columns) sources views :=
      forall₂_trans (fun source t v hsource hv => hv.spell hsource) h hare
    refine ⟨_, htable, ?_, ?_⟩
    · rw [Table.splitOnP_join_map hsome fun v hv => (hsingle v hv).1, List.forall₂_map_right_iff]
      exact hspell.imp fun source v hv => hv.1
    · rw [Table.splitOnP_join_map hsome fun v hv => (hsingle v hv).2, List.forall₂_map_right_iff]
      exact hspell.imp fun source v hv => hv.2

/-- Groups that begin at one header and end at another, brackets of two families, and every kind of blank. -/
theorem Sentence.tables_spell_nested :
    ∃ t u, parse "~[ (A&&B)\t\x7d v\r\n((C))" = .ok t ∧ parse "B " = .ok u ∧
      (∃ views, t.table {} = .ok views ∧ views.detailed.headers = ["~", "[(A", "&&", "B)\x7d", "v", "((C))"] ∧
        Spells "~[ (A&&B)\t\x7d v\r\n((C))" views.detailed.columns ∧
        ResultSpells "~[ (A&&B)\t\x7d v\r\n((C))" views.simple.columns) ∧
      ∃ joint, jointTable {} true [t, u] = .ok joint ∧
        List.Forall₂ Spells ["~[ (A&&B)\t\x7d v\r\n((C))", "B "]
          (joint.detailed.columns.splitOnP Column.isSeparator) ∧
        List.Forall₂ ResultSpells ["~[ (A&&B)\t\x7d v\r\n((C))", "B "]
          (joint.simple.columns.splitOnP Column.isSeparator) := by
  obtain ⟨t, u, ht, hu, hlimit, hheaders, hjoint⟩ : ∃ t u, parse "~[ (A&&B)\t\x7d v\r\n((C))" = .ok t ∧
      parse "B " = .ok u ∧ t.symbols.length ≤ Limit.enforced {} ∧
      t.headers = ["~", "[(A", "&&", "B)\x7d", "v", "((C))"] ∧
      (symbolsOf [t, u]).length ≤ Limit.enforced {} :=
    ⟨.binary .disjunction "v" (.negation "~" (.group '[' (.group '(' (.binary .conjunction "&&" (.symbol ⟨"A"⟩)
      (.symbol ⟨"B"⟩)) ')') '\x7d')) (.group '(' (.group '(' (.symbol ⟨"C"⟩) ')') ')'), .symbol ⟨"B"⟩,
      by decide +kernel, by decide +kernel, by decide, by decide, by decide⟩
  have hspell := @tables_spell {}
  obtain ⟨views, hviews, hdetailed, hsimple⟩ := hspell.1 _ t ht hlimit
  refine ⟨t, u, ht, hu, ⟨views, hviews, ?_, hdetailed, hsimple⟩, ?_⟩
  · obtain ⟨b, hb, htable⟩ := table_eq_ok hlimit
    obtain rfl := Except.ok.inj (htable.symm.trans hviews)
    rw [← hheaders]
    exact Block.headers_detailed hb.length_columns
  · exact hspell.2 true _ [t, u] (.cons ht (.cons hu .nil)) (List.cons_ne_nil t [u]) hjoint

end Sentential
