import Sentential.Proofs.Replacement
import Sentential.Proofs.Selections

/-!
# `Sentential.Proofs.Accounts` — what a search writes down agrees with what it finds

A search writes one topic for every candidate that it tries, behind whatever was written before, and a reader of
the explanation can tell from the topics alone what was found. This is not plain from how it is written: a step
that repeats the note before it is left out, so that an account could lose steps. It loses none of those that say
what a form gives, because results with one text are listed once and what a medium shows of different texts is
different (`Medium.paint_injective`). And no step of a candidate that fits reads like the one of a candidate that
does not.

The notes are written while the search goes on: a topic is opened, and steps are written into the last topic.
`searchFormsInPlace` and `searchRulesInPlace` do it in this sequence, and leave the same explanation as if each
account had been finished first. A search at a path that leads nowhere stops before it opens a topic.

## Contents
* `afterResets_injective`, `Medium.paint_injective` — different texts are shown differently
* `Explanation.asTopic`, `topics_eq`, `steps_titled` — notes written behind others
* `opensWith`, `holdsOnly` — how an account begins, and an account of a single step
* `FormsTraced`, `RulesTraced` — accounts that agree with what was found
* `ArgumentForm.tryInPlace`, `ReplacementRule.tryInPlace` — notes written one by one
* `Catalogue.search_traced` — both searches
-/

namespace Sentential

/-! ## Painted texts -/

section

variable {again : List Char}

/-- A character that begins no reset is followed by nothing new. -/
theorem afterResets_cons {c : Char} {cs : List Char}
    (h : ∀ rest, c = '\x1b' → cs = '[' :: '0' :: 'm' :: rest → False) :
    afterResets again (c :: cs) = c :: afterResets again cs := by
  rw [afterResets]
  exact h

/-- Text without an escape stands in front of the one exactly if it stands in front of the other. -/
theorem prefix_afterResets_iff {start cs : List Char} (hstart : '\x1b' ∉ start) :
    start <+: afterResets again cs ↔ start <+: cs := by
  induction start generalizing cs with
  | nil => simp
  | cons d start ih =>
    obtain ⟨hd, hstart⟩ := not_or.mp (mt List.mem_cons.mpr hstart)
    fun_cases afterResets again cs with
    | case1 rest => simp [Ne.symm hd]
    | case2 c rest hreset => rw [List.cons_prefix_cons, List.cons_prefix_cons, ih hstart]
    | case3 => rfl

/-- The escape sequence that turns all styles off, as characters. -/
def resetChars : List Char := ['\x1b', '[', '0', 'm']

/-- A reset stands in front of the one exactly if it stands in front of the other. -/
theorem reset_prefix_afterResets_iff {cs : List Char} : resetChars <+: afterResets again cs ↔ resetChars <+: cs := by
  unfold resetChars
  fun_cases afterResets again cs with
  | case1 rest => simp
  | case2 c rest hreset => rw [List.cons_prefix_cons, List.cons_prefix_cons, prefix_afterResets_iff (by decide)]
  | case3 => rfl

/-- **What follows the resets can be taken out again**: different texts stay different. -/
theorem afterResets_injective (again : List Char) : Function.Injective (afterResets again) := by
  intro cs ds h
  fun_induction afterResets again cs generalizing ds with
  | case1 rest ih =>
    -- the other text begins with a reset as well
    obtain ⟨rest', rfl⟩ : resetChars <+: ds := by
      apply reset_prefix_afterResets_iff.mp
      rw [← h]
      exact ⟨_, rfl⟩
    simp only [resetChars, List.cons_append, List.nil_append, afterResets, List.cons.injEq, true_and] at h
    rw [ih (List.append_cancel_left h)]
    rfl
  | case2 c rest hreset ih =>
    fun_cases afterResets again ds with
    | case1 rest' =>
      -- then the first text would begin with a reset, too
      obtain ⟨rest'', hrest⟩ : resetChars <+: c :: rest := by
        apply reset_prefix_afterResets_iff.mp
        rw [afterResets_cons hreset, h, afterResets]
        exact ⟨_, rfl⟩
      obtain ⟨rfl, rfl⟩ := List.cons.inj hrest.symm
      exact absurd rfl (hreset rest'' rfl)
    | case2 d rest' hreset' =>
      rw [afterResets_cons hreset'] at h
      obtain ⟨rfl, htail⟩ := List.cons.inj h
      rw [ih htail]
    | case3 => exact absurd h (List.cons_ne_nil _ _)
  | case3 =>
    fun_cases afterResets again ds with
    | case1 rest' => exact absurd h (by simp [afterResets])
    | case2 d rest' hreset' => exact absurd h (by rw [afterResets_cons hreset']; simp)
    | case3 => rfl

end

/-- A text is known from what is put around it. -/
theorem append_append_injective (before after : String) :
    Function.Injective fun text : String => before ++ text ++ after :=
  fun _ _ h => (String.append_right_inj _).mp ((String.append_left_inj _).mp h)

theorem terminal_injective (style : Style) : Function.Injective (terminal style) := by
  intro text text' h
  unfold terminal at h
  split at h
  · exact h
  · have hinner := append_append_injective style.escape escapeReset h
    exact String.toList_injective (afterResets_injective _ (String.ofList_injective hinner))

theorem html_injective (style : Style) : Function.Injective (html style) := by
  have hbold : Function.Injective fun text : String => if style.bold then "<b>" ++ text ++ "</b>" else text := by
    intro text text' h
    cases hstyle : style.bold with
    | true => exact append_append_injective "<b>" "</b>" (by simpa [hstyle] using h)
    | false => simpa [hstyle] using h
  intro text text' h
  unfold html at h
  cases hforeground : style.foreground with
  | none => exact hbold (by simpa only [hforeground] using h)
  | some colour =>
    refine hbold (append_append_injective ("<span style=\"color: " ++ colour.html ++ ";\">") "</span>" ?_)
    simpa only [hforeground] using h

/-- **Different texts are shown differently**, whatever the medium and the style. -/
theorem Medium.paint_injective (medium : Medium) (style : Style) : Function.Injective (medium.paint style) := by
  cases medium with
  | plain => exact Function.injective_id
  | terminal => exact terminal_injective style
  | html => exact html_injective style

/-! ## Notes behind others -/

namespace Explanation

/-- The explanation as a note of another. -/
def asTopic (e : Explanation) : Note := .topic e.title e.notes

/-- Topics are written behind what there is. -/
theorem topics_eq (e : Explanation) (parts : List Explanation) :
    e.topics parts = ⟨e.title, e.notes ++ parts.map asTopic⟩ := by
  unfold topics
  induction parts generalizing e with
  | nil => simp
  | cons part parts ih =>
    rw [List.foldl_cons, ih, topic, List.map_cons, List.append_assoc]
    rfl

/-- **Different steps are all written down**, behind other steps. -/
theorem steps_eq {title : String} {written texts : List String} (h : (written ++ texts).Nodup) :
    (⟨title, written.map .step⟩ : Explanation).steps texts = ⟨title, (written ++ texts).map .step⟩ := by
  unfold steps
  induction texts generalizing written with
  | nil => rw [List.append_nil]; rfl
  | cons text texts ih =>
    -- the note right before it is another step
    have hnew : text ∉ written := fun hmem => (List.nodup_append.mp h).2.2 text hmem text List.mem_cons_self rfl
    have hlast : (written.map Note.step).getLast?.any (Note.isStep text) = false := by
      rw [← Bool.not_eq_true, Option.any_eq_true]
      rintro ⟨note, hnote, hsame⟩
      obtain ⟨t, ht, rfl⟩ := List.mem_map.mp (List.mem_of_getLast? hnote)
      exact hnew (eq_of_beq hsame ▸ ht)
    have hstep : (⟨title, written.map .step⟩ : Explanation).step text = ⟨title, (written ++ [text]).map .step⟩ := by
      rw [step, hlast, List.map_append]
      rfl
    rw [List.foldl_cons, hstep, ih (by rwa [List.append_assoc, List.singleton_append]), List.append_assoc,
      List.singleton_append]

theorem steps_titled {title : String} {texts : List String} (h : texts.Nodup) :
    (titled title).steps texts = ⟨title, texts.map .step⟩ :=
  steps_eq ((List.nil_append texts).symm ▸ h)

/-- Steps leave the title as it is. -/
theorem title_steps (e : Explanation) (texts : List String) : (e.steps texts).title = e.title := by
  unfold steps
  induction texts generalizing e with
  | nil => rfl
  | cons text texts ih =>
    rw [List.foldl_cons, ih, step]
    split <;> rfl

/-- What is written stays in front. -/
theorem prefix_notes_steps (e : Explanation) (texts : List String) : e.notes <+: (e.steps texts).notes := by
  unfold steps
  induction texts generalizing e with
  | nil => exact List.prefix_rfl
  | cons text texts ih =>
    refine List.IsPrefix.trans ?_ (ih (e.step text))
    unfold step
    split
    · exact List.prefix_rfl
    · exact List.prefix_append _ _

/-! ## Accounts -/

/-- The account begins with a step that begins so. -/
def opensWith (opening : String) (e : Explanation) : Bool :=
  match e.notes with
  | .step text :: _ => opening.toList.isPrefixOf text.toList
  | _ => false

/-- The account is this step and nothing else. -/
def holdsOnly (text : String) (e : Explanation) : Bool :=
  match e.notes with
  | [.step t] => t == text
  | _ => false

theorem holdsOnly_iff {text : String} {e : Explanation} : e.holdsOnly text = true ↔ e.notes = [.step text] := by
  unfold holdsOnly
  split
  · rename_i t hnotes
    simp [hnotes]
  · rename_i hother
    simp only [Bool.false_eq_true, false_iff]
    exact hother text

end Explanation

variable {medium : Medium}

/-- The step that says what the variables of a form stand for. -/
def FormMatch.matchedStep (medium : Medium) (m : FormMatch) : String :=
  "Matched with " ++ medium.paint (.coloured .green) m.bindings.text

/-- The step for a result. -/
def resultStep (medium : Medium) (d : Draft) : String := "=> " ++ medium.paint (.coloured .blue) d.text

/-- The step of a form that does not fit. -/
def noAssignment (medium : Medium) : String :=
  medium.paint (.coloured .red) "No assignment of premises matches"

/-- The step of a rule that does not fit. -/
def noEquivalence (medium : Medium) : String := medium.paint (.coloured .red) "No equivalence matches"

namespace ArgumentForm

variable {form : ArgumentForm Statement} {statements : List Statement} {m : FormMatch}

/-- The steps of a form that fits are different from each other. -/
theorem nodup_steps (h : form.match? statements = some m) :
    (m.matchedStep medium :: m.derived.map (resultStep medium)).Nodup := by
  rw [List.nodup_cons]
  constructor
  · intro hmem
    obtain ⟨d, _, hd⟩ := List.mem_map.mp hmem
    have hfirst := congrArg (fun text : String => text.toList.head?) hd
    simp [resultStep, FormMatch.matchedStep] at hfirst
  · -- texts are listed once, and a step shows the text
    have htexts : (m.derived.map Formula.text).Nodup := by
      rw [derived_eq h, map_distinctBy]
      exact nodup_distinct _
    have hsteps : m.derived.map (resultStep medium) =
        (m.derived.map Formula.text).map fun text => "=> " ++ medium.paint (.coloured .blue) text := by
      rw [List.map_map]
      rfl
    rw [hsteps]
    refine htexts.map fun text text' heq => ?_
    exact medium.paint_injective _ ((String.append_right_inj _).mp heq)

/-- **The account of a form that fits**: a step for the bindings, and one for every result. -/
theorem account_of_match (h : form.match? statements = some m) :
    form.account medium statements =
      ⟨form.title, .step (m.matchedStep medium) :: m.derived.map fun d => .step (resultStep medium d)⟩ := by
  simp only [account, h]
  apply (Explanation.steps_titled (nodup_steps h)).trans
  rw [List.map_cons, List.map_map]
  rfl

/-- The account of a form that does not fit. -/
theorem account_of_none (h : form.match? statements = none) :
    form.account medium statements = ⟨form.title, [.step (noAssignment medium)]⟩ := by
  simp only [account, h]
  rfl

/-- **The account shows whether the form fits.** -/
theorem opensWith_account (medium : Medium) (form : ArgumentForm Statement) (statements : List Statement) :
    (form.account medium statements).opensWith "Matched with " = (form.match? statements).isSome := by
  cases h : form.match? statements with
  | none =>
    rw [account_of_none h]
    show "Matched with ".toList.isPrefixOf (noAssignment medium).toList = false
    cases medium <;> decide
  | some m =>
    rw [account_of_match h]
    simp [Explanation.opensWith, FormMatch.matchedStep]

theorem title_account (medium : Medium) (form : ArgumentForm Statement) (statements : List Statement) :
    (form.account medium statements).title = form.title := by
  cases h : form.match? statements with
  | none => rw [account_of_none h]
  | some m => rw [account_of_match h]

end ArgumentForm

namespace ReplacementRule

variable {rule : ReplacementRule Statement} {statement fragment : Statement} {path : Path}

/-- The step for a use of a rule. -/
def useStep (medium : Medium) (r : Replacement) : String :=
  r.source.text ++ " ⟹ " ++ r.target.text ++ " with " ++ medium.paint (.coloured .green) r.bindings.text ++
    " gives " ++ medium.paint (.coloured .blue) r.result.text

/-- A rule fits exactly if it has a use. -/
theorem isSome_match?_iff : (rule.match? statement path fragment).isSome = !(rule.uses fragment).isEmpty := by
  unfold match?
  cases rule.uses fragment <;> rfl

/-- The account of a rule with uses begins with the step for the first of them. -/
theorem account_of_uses {r : Replacement} {rest : List Replacement} (h : rule.uses fragment = r :: rest) :
    .step (useStep medium r) ∈ (rule.account medium fragment).notes.head? := by
  simp only [account, h]
  have hfirst := Explanation.prefix_notes_steps ((Explanation.titled rule.title).step (useStep medium r))
    (rest.map (useStep medium))
  obtain ⟨more, hmore⟩ := hfirst
  show _ ∈ (((Explanation.titled rule.title).step (useStep medium r)).steps (rest.map (useStep medium))).notes.head?
  rw [← hmore]
  rfl

/-- No use of a rule is told in the words for a rule that does not fit. -/
theorem useStep_ne_noEquivalence (r : Replacement) : useStep medium r ≠ noEquivalence medium := by
  intro h
  have harrow : '⟹' ∈ (noEquivalence medium).toList := by
    rw [← h]
    simp [useStep]
  cases medium <;> exact absurd harrow (by decide)

/-- **The account shows whether the rule fits.** -/
theorem holdsOnly_account (medium : Medium) (rule : ReplacementRule Statement) (statement fragment : Statement)
    (path : Path) : (rule.account medium fragment).holdsOnly (noEquivalence medium) =
      !(rule.match? statement path fragment).isSome := by
  rw [isSome_match?_iff, Bool.not_not]
  cases h : rule.uses fragment with
  | nil =>
    rw [List.isEmpty_nil, Explanation.holdsOnly_iff]
    simp only [account, h]
    rfl
  | cons r rest =>
    rw [List.isEmpty_cons, ← Bool.not_eq_true, Explanation.holdsOnly_iff]
    intro hnotes
    have hfirst : Note.step (useStep medium r) ∈ (rule.account medium fragment).notes.head? := account_of_uses h
    rw [hnotes] at hfirst
    exact useStep_ne_noEquivalence r (Note.step.inj (Option.some.inj hfirst)).symm

theorem title_account (medium : Medium) (rule : ReplacementRule Statement) (fragment : Statement) :
    (rule.account medium fragment).title = rule.title :=
  Explanation.title_steps _ _

end ReplacementRule

/-! ## What was found, and what was written -/

section

variable {α β : Type} {fits? : α → Option β} {account : α → Explanation} (tells : Explanation → Bool)
  {candidate : β → α}

/-- Where an account tells whether its candidate fits, those that fit are the ones whose accounts tell so. -/
theorem map_filterMap_eq_filter_zip (htells : ∀ a, tells (account a) = (fits? a).isSome)
    (hcandidate : ∀ a b, fits? a = some b → candidate b = a) (tried : List α) :
    (tried.filterMap fits?).map candidate =
      ((tried.zip (tried.map account)).filter fun p => tells p.2).map Prod.fst := by
  induction tried with
  | nil => rfl
  | cons a tried ih =>
    rw [List.map_cons, List.zip_cons_cons]
    cases hfits : fits? a with
    | none =>
      have htold : ¬tells (account a) = true := by rw [htells, hfits]; exact Bool.false_ne_true
      rw [List.filterMap_cons_none hfits, List.filter_cons, if_neg htold, ih]
    | some b =>
      have htold : tells (account a) = true := by rw [htells, hfits]; rfl
      rw [List.filterMap_cons_some hfits, List.filter_cons, if_pos htold, List.map_cons, List.map_cons, ih,
        hcandidate a b hfits]

/-- These accounts belong to what was found, one to each. -/
theorem forall₂_filter_accounts {R : β → Explanation → Prop} (htells : ∀ a, tells (account a) = (fits? a).isSome)
    (hR : ∀ a b, fits? a = some b → R b (account a)) (tried : List α) :
    List.Forall₂ R (tried.filterMap fits?) ((tried.map account).filter tells) := by
  induction tried with
  | nil => exact .nil
  | cons a tried ih =>
    rw [List.map_cons]
    cases hfits : fits? a with
    | none =>
      have htold : ¬tells (account a) = true := by rw [htells, hfits]; exact Bool.false_ne_true
      rw [List.filterMap_cons_none hfits, List.filter_cons_of_neg htold]
      exact ih
    | some b =>
      have htold : tells (account a) = true := by rw [htells, hfits]; rfl
      rw [List.filterMap_cons_some hfits, List.filter_cons_of_pos htold]
      exact .cons (hR a b hfits) ih

end

/-- The accounts agree with the forms that were found among those that were tried. -/
structure FormsTraced (medium : Medium) (tried : List (ArgumentForm Statement)) (found : List FormMatch)
    (accounts : List Explanation) : Prop where
  /-- There is an account of each form, in order. -/
  titles : accounts.map Explanation.title = tried.map ArgumentForm.title
  /-- The forms found are those whose account begins with a step for the bindings. -/
  forms : found.map FormMatch.form =
    ((tried.zip accounts).filter fun p => p.2.opensWith "Matched with ").map Prod.fst
  /-- Behind that step there is one for each result. -/
  matched : List.Forall₂ (fun m account => account.notes =
      .step ("Matched with " ++ medium.paint (.coloured .green) m.bindings.text) ::
        m.derived.map fun d => .step ("=> " ++ medium.paint (.coloured .blue) d.text))
    found (accounts.filter (·.opensWith "Matched with "))
  /-- Every other account says only that nothing matched. -/
  others : ∀ account ∈ accounts, account.opensWith "Matched with " = false →
    account.notes = [.step (medium.paint (.coloured .red) "No assignment of premises matches")]

/-- The accounts agree with the rules that were found among those that were tried. -/
structure RulesTraced (medium : Medium) (tried : List (ReplacementRule Statement)) (found : List RuleMatch)
    (accounts : List Explanation) : Prop where
  /-- There is an account of each rule, in order. -/
  titles : accounts.map Explanation.title = tried.map ReplacementRule.title
  /-- The rules found are those whose account does not only say that nothing matched. -/
  rules : found.map RuleMatch.rule = ((tried.zip accounts).filter fun p =>
    !p.2.holdsOnly (medium.paint (.coloured .red) "No equivalence matches")).map Prod.fst

/-- The accounts that a search of forms writes agree with what it finds. -/
theorem formsTraced (medium : Medium) (tried : List (ArgumentForm Statement)) (statements : List Statement) :
    FormsTraced medium tried (tried.filterMap (·.match? statements)) (tried.map (·.account medium statements)) := by
  have htells := fun form => ArgumentForm.opensWith_account medium form statements
  refine ⟨?_, ?_, ?_, ?_⟩
  · rw [List.map_map]
    exact List.map_congr_left fun form _ => ArgumentForm.title_account medium form statements
  · exact map_filterMap_eq_filter_zip _ htells (fun form m h => (ArgumentForm.match?_eq_some h).1) tried
  · refine forall₂_filter_accounts _ htells (fun form m h => ?_) tried
    rw [ArgumentForm.account_of_match h]
    rfl
  · intro account haccount hother
    obtain ⟨form, _, rfl⟩ := List.mem_map.mp haccount
    rw [htells, ← Bool.not_eq_true, Option.not_isSome_iff_eq_none] at hother
    rw [ArgumentForm.account_of_none hother]
    rfl

/-- The accounts that a search of rules writes agree with what it finds. -/
theorem rulesTraced (medium : Medium) (tried : List (ReplacementRule Statement)) (statement fragment : Statement)
    (path : Path) :
    RulesTraced medium tried (tried.filterMap (·.match? statement path fragment))
      (tried.map (·.account medium fragment)) := by
  refine ⟨?_, ?_⟩
  · rw [List.map_map]
    exact List.map_congr_left fun rule _ => ReplacementRule.title_account medium rule fragment
  · have htells : ∀ rule : ReplacementRule Statement,
        (!(rule.account medium fragment).holdsOnly (noEquivalence medium)) =
          (rule.match? statement path fragment).isSome := by
      intro rule
      rw [ReplacementRule.holdsOnly_account medium rule statement fragment path, Bool.not_not]
    have hrule : ∀ (rule : ReplacementRule Statement) (m : RuleMatch),
        rule.match? statement path fragment = some m → m.rule = rule :=
      fun rule m h => (ReplacementRule.match?_eq_some h).1
    exact map_filterMap_eq_filter_zip (fun e => !e.holdsOnly (noEquivalence medium)) htells hrule tried

/-! ## Notes in place -/

/-- The last note written on, if it is a topic. -/
def Explanation.inLastTopic (write : Explanation → Explanation) (e : Explanation) : Explanation :=
  match e.notes.getLast? with
  | some (.topic title notes) => { e with notes := e.notes.dropLast ++ [(write ⟨title, notes⟩).asTopic] }
  | _ => e

/-- The topic written last is the one that is written on. -/
theorem Explanation.inLastTopic_topic (write : Explanation → Explanation) (e part : Explanation) :
    (e.topic part).inLastTopic write = e.topic (write part) := by
  unfold inLastTopic topic
  simp only [List.getLast?_concat, List.dropLast_concat]
  rfl

/-- A step written into the topic that was opened last. -/
def noteStep (text : String) : EStateM LogicError Explanation Unit := modify (·.inLastTopic (·.step text))

theorem noteStep_run (text : String) (e part : Explanation) :
    (noteStep text).run (e.topic part) = .ok () (e.topic (part.step text)) := by
  rw [noteStep, EStateM.run_modify, Explanation.inLastTopic_topic]

/-- Steps written one by one are those written together. -/
theorem forM_noteStep_run {α : Type} (line : α → String) (members : List α) (e part : Explanation) :
    (members.forM fun a => noteStep (line a)).run (e.topic part)
      = .ok () (e.topic (part.steps (members.map line))) := by
  induction members generalizing part with
  | nil => rfl
  | cons a members ih =>
    show (noteStep (line a) >>= fun _ => members.forM fun a => noteStep (line a)).run (e.topic part) = _
    rw [EStateM.run_bind, noteStep_run]
    exact ih (part.step (line a))

/-- Candidates tried one after the other, where each of them changes the state in its own way. -/
theorem filterMapM_run {ε σ α β : Type} {attempt : α → EStateM ε σ (Option β)} {fits? : α → Option β}
    {next : σ → α → σ} (h : ∀ a s, (attempt a).run s = .ok (fits? a) (next s a)) (members : List α) (s : σ) :
    (members.filterMapM attempt).run s = .ok (members.filterMap fits?) (members.foldl next s) := by
  induction members generalizing s with
  | nil => rfl
  | cons a members ih =>
    rw [List.filterMapM_cons, EStateM.run_bind, h, List.foldl_cons]
    cases hfits : fits? a with
    | none =>
      rw [List.filterMap_cons_none hfits]
      exact ih (next s a)
    | some b =>
      rw [List.filterMap_cons_some hfits]
      simp only [EStateM.run_bind, ih]
      rfl

/-- A form tried in place: its topic is opened, and steps are written into it. -/
def ArgumentForm.tryInPlace (medium : Medium) (statements : List Statement) (form : ArgumentForm Statement) :
    EStateM LogicError Explanation (Option FormMatch) := do
  modify (·.topic (.titled form.title))
  match matchPremises form.premises statements Assignment.empty with
  | none =>
    noteStep (noAssignment medium)
    return none
  | some b =>
    noteStep ("Matched with " ++ medium.paint (.coloured .green) b.text)
    let derived := distinctBy Formula.text (form.conclusions.map (substitute · b))
    derived.forM fun d => noteStep (resultStep medium d)
    return some ⟨form, b, derived⟩

/-- A form tried in place leaves the account of it. -/
theorem ArgumentForm.tryInPlace_run (medium : Medium) (statements : List Statement)
    (form : ArgumentForm Statement) (e : Explanation) :
    (form.tryInPlace medium statements).run e =
      .ok (form.match? statements) (e.topic (form.account medium statements)) := by
  unfold tryInPlace
  rw [EStateM.run_bind, EStateM.run_modify]
  cases hmatch : matchPremises form.premises statements Assignment.empty with
  | none =>
    dsimp only
    rw [EStateM.run_bind, noteStep_run]
    simp only [account, match?, hmatch]
    rfl
  | some b =>
    dsimp only
    rw [EStateM.run_bind, noteStep_run]
    dsimp only
    rw [EStateM.run_bind, forM_noteStep_run]
    simp only [account, match?, hmatch]
    rfl

namespace ReplacementRule

/-- The use of one direction on a fragment, if its pattern matches. -/
def useOf? (fragment : Statement) (direction : Statement × Statement) : Option Replacement :=
  match matchPattern direction.1 fragment Assignment.empty with
  | none => none
  | some b => some ⟨direction.1, direction.2, b, substitute direction.2 b⟩

/-- A direction tried in place: a step is written for its use, and the result is entered under its text. -/
def tryDirection (medium : Medium) (fragment : Statement) (entries : List (String × Draft))
    (direction : Statement × Statement) : EStateM LogicError Explanation (List (String × Draft)) := do
  match useOf? fragment direction with
  | none => return entries
  | some r =>
    noteStep (useStep medium r)
    return enter Formula.text entries r.result

/-- A rule tried in place: its topic is opened, and steps are written into it. -/
def tryInPlace (medium : Medium) (statement : Statement) (path : Path) (fragment : Statement)
    (rule : ReplacementRule Statement) : EStateM LogicError Explanation (Option RuleMatch) := do
  modify (·.topic (.titled rule.title))
  let entries ← rule.directions.foldlM (tryDirection medium fragment) []
  if entries.isEmpty then
    noteStep (noEquivalence medium)
    return none
  let derived := entries.map Prod.snd
  return some ⟨rule, derived, derived.map (splice statement path)⟩

/-- Directions tried one after the other leave the steps of their uses, and enter the results of these. -/
theorem foldlM_tryDirection_run (medium : Medium) (fragment : Statement) (directions : List (Statement × Statement))
    (entries : List (String × Draft)) (e part : Explanation) :
    (directions.foldlM (tryDirection medium fragment) entries).run (e.topic part) =
      .ok (((directions.filterMap (useOf? fragment)).map Replacement.result).foldl (enter Formula.text) entries)
        (e.topic (part.steps ((directions.filterMap (useOf? fragment)).map (useStep medium)))) := by
  induction directions generalizing entries part with
  | nil => rfl
  | cons direction directions ih =>
    rw [List.foldlM_cons, EStateM.run_bind, tryDirection]
    cases huse : useOf? fragment direction with
    | none =>
      rw [List.filterMap_cons_none huse]
      exact ih entries part
    | some r =>
      rw [List.filterMap_cons_some huse]
      dsimp only
      rw [EStateM.run_bind, noteStep_run]
      exact ih (enter Formula.text entries r.result) (part.step (useStep medium r))

/-- A rule tried in place leaves the account of it. -/
theorem tryInPlace_run (medium : Medium) (statement : Statement) (path : Path) (fragment : Statement)
    (rule : ReplacementRule Statement) (e : Explanation) :
    (rule.tryInPlace medium statement path fragment).run e =
      .ok (rule.match? statement path fragment) (e.topic (rule.account medium fragment)) := by
  have huses : rule.directions.filterMap (useOf? fragment) = rule.uses fragment := rfl
  unfold tryInPlace
  rw [EStateM.run_bind, EStateM.run_modify]
  dsimp only
  rw [EStateM.run_bind, foldlM_tryDirection_run, huses, foldl_enter]
  cases h : rule.uses fragment with
  | nil =>
    show (noteStep (noEquivalence medium) >>= fun _ => pure none).run (e.topic (.titled rule.title)) = _
    rw [EStateM.run_bind, noteStep_run]
    simp only [match?, account, h]
    rfl
  | cons r rest =>
    have hresults : ∀ results : List Draft, (results.map fun d => (d.text, d)).map Prod.snd = results := by
      intro results
      rw [List.map_map]
      exact List.map_id results
    simp only [match?, account, h, hresults]
    rfl

end ReplacementRule

namespace Catalogue

/-- A search of forms in place. -/
def searchFormsInPlace (c : Catalogue Statement) (medium : Medium) (statements : List Statement) :
    EStateM LogicError Explanation (List FormMatch) :=
  (c.candidates statements).filterMapM (·.tryInPlace medium statements)

/-- A search of rules in place. -/
def searchRulesInPlace (c : Catalogue Statement) (medium : Medium) (statement : Statement) (path : Path) :
    EStateM LogicError Explanation (List RuleMatch) := do
  match statement.fragment? path with
  | none => throw (.fragmentNotFound path)
  | some fragment => c.rules.filterMapM (·.tryInPlace medium statement path fragment)

variable {c : Catalogue Statement} {statement : Statement} {path : Path} {e : Explanation}

/-- A search of forms leaves what there is and writes the accounts of its candidates behind it. -/
theorem searchForms_eq (statements : List Statement) :
    c.searchForms medium statements e = ((c.candidates statements).filterMap (·.match? statements),
      ⟨e.title, e.notes ++ ((c.candidates statements).map (·.account medium statements)).map
        Explanation.asTopic⟩) := by
  simp only [searchForms, Explanation.topics_eq]

/-- A search of rules leaves what there is and writes the accounts of its rules behind it. -/
theorem searchRules_eq {fragment : Statement} (h : statement.fragment? path = some fragment) :
    c.searchRules medium statement path e = .ok (c.rules.filterMap (·.match? statement path fragment),
      ⟨e.title, e.notes ++ (c.rules.map (·.account medium fragment)).map Explanation.asTopic⟩) := by
  simp only [searchRules, h, Explanation.topics_eq]

/-- A search of forms in place finds and leaves what the search does. -/
theorem searchFormsInPlace_run (statements : List Statement) :
    (c.searchFormsInPlace medium statements).run e =
      .ok (c.searchForms medium statements e).1 (c.searchForms medium statements e).2 := by
  rw [searchFormsInPlace, filterMapM_run fun form s => form.tryInPlace_run medium statements s]
  simp only [searchForms, Explanation.topics, List.foldl_map]

/-- A search of rules in place finds and leaves what the search does, and a refused one leaves what it found. -/
theorem searchRulesInPlace_run :
    (c.searchRulesInPlace medium statement path).run e =
      match c.searchRules medium statement path e with
      | .ok (found, e') => .ok found e'
      | .error refusal => .error refusal e := by
  unfold searchRulesInPlace searchRules
  cases statement.fragment? path with
  | none => rfl
  | some fragment =>
    dsimp only
    rw [filterMapM_run fun rule s => rule.tryInPlace_run medium statement path fragment s]
    simp only [Explanation.topics, List.foldl_map]

/-! ## Every search -/

/-- **The explanation of a search agrees with its result.** Whatever the catalogue and whatever was written before,
    a search leaves all notes there are and writes one topic behind them for each candidate, in order: each form
    with as many premises as there are statements, or each rule. The accounts agree with what was found. At a path
    that leads nowhere a search of rules is refused and writes nothing. All this is so in place, too. -/
theorem search_traced (c : Catalogue Statement) (medium : Medium) (e : Explanation) :
    (∀ statements, ∃ found accounts,
      c.searchForms medium statements e = (found, ⟨e.title, e.notes ++ accounts.map Explanation.asTopic⟩) ∧
      (c.searchFormsInPlace medium statements).run e =
        .ok found ⟨e.title, e.notes ++ accounts.map Explanation.asTopic⟩ ∧
      FormsTraced medium (c.forms.filter (·.premises.length == statements.length)) found accounts) ∧
    (∀ statement path fragment, statement.fragment? path = some fragment → ∃ found accounts,
      c.searchRules medium statement path e =
        .ok (found, ⟨e.title, e.notes ++ accounts.map Explanation.asTopic⟩) ∧
      (c.searchRulesInPlace medium statement path).run e =
        .ok found ⟨e.title, e.notes ++ accounts.map Explanation.asTopic⟩ ∧
      RulesTraced medium c.rules found accounts) ∧
    ∀ statement path, statement.fragment? path = none →
      c.searchRules medium statement path e = .error (.fragmentNotFound path) ∧
      (c.searchRulesInPlace medium statement path).run e = .error (.fragmentNotFound path) e := by
  refine ⟨?_, ?_, ?_⟩
  · intro statements
    refine ⟨_, _, searchForms_eq statements, ?_, formsTraced medium (c.candidates statements) statements⟩
    rw [searchFormsInPlace_run, searchForms_eq]
  · intro statement path fragment hpath
    refine ⟨_, _, searchRules_eq hpath, ?_, rulesTraced medium c.rules statement fragment path⟩
    rw [searchRulesInPlace_run, searchRules_eq hpath]
  · intro statement path hpath
    have hrefused : c.searchRules medium statement path e = .error (.fragmentNotFound path) := by
      simp only [searchRules, hpath]
    rw [searchRulesInPlace_run, hrefused]
    exact ⟨rfl, rfl⟩

/-- Two forms of one premise, of which one fits and concludes the same twice, a form of two premises, and a rule,
    in a terminal and behind a step that is there already. -/
theorem search_traced_terminal :
    ∃ c, Catalogue.parse ⟨[⟨"Simplification", "Simp", ["P & Q"], ["P", "Q", "P"]⟩,
          ⟨"Detachment", "Det", ["P > Q", "P"], ["Q"]⟩, ⟨"Negation", "Neg", ["~P"], ["P"]⟩],
        [⟨"Commutation", "Com", [("P & Q", "Q & P")]⟩]⟩ = .ok c ∧
      ∃ s, Statement.parse "A & B" = .ok s ∧
        (∃ found accounts, c.searchForms .terminal [s] ⟨"Forms", [.step "before"]⟩ =
            (found, ⟨"Forms", [.step "before"] ++ accounts.map Explanation.asTopic⟩) ∧
          found.map (fun m => m.derived.map Formula.text) = [["A", "B"]] ∧
          accounts.map Explanation.title = ["Simplification (Simp)", "Negation (Neg)"] ∧
          FormsTraced .terminal (c.forms.filter (·.premises.length == 1)) found accounts) ∧
        (∃ found accounts, c.searchRules .terminal s [] ⟨"Rules", [.step "before"]⟩ =
            .ok (found, ⟨"Rules", [.step "before"] ++ accounts.map Explanation.asTopic⟩) ∧
          found.map (fun m => m.derived.map Formula.text) = [["B & A"]] ∧
          found.map RuleMatch.spliced = [["B & A"]] ∧
          RulesTraced .terminal c.rules found accounts) ∧
        (c.searchRulesInPlace .terminal s [2]).run ⟨"Rules", [.step "before"]⟩ =
          .error (.fragmentNotFound [2]) ⟨"Rules", [.step "before"]⟩ := by
  let P : Statement := .atom ⟨"P"⟩
  let Q : Statement := .atom ⟨"Q"⟩
  let s : Statement := .binary .conjunction (.atom ⟨"A"⟩) (.atom ⟨"B"⟩)
  let c : Catalogue Statement := ⟨[⟨"Simplification", "Simp", [.binary .conjunction P Q], [P, Q, P]⟩,
      ⟨"Detachment", "Det", [.binary .conditional P Q, P], [Q]⟩, ⟨"Negation", "Neg", [.negation P], [P]⟩],
    [⟨"Commutation", "Com", [(.binary .conjunction P Q, .binary .conjunction Q P)]⟩]⟩
  obtain ⟨hforms, -, -⟩ := search_traced c .terminal ⟨"Forms", [.step "before"]⟩
  obtain ⟨-, hrules, hrefused⟩ := search_traced c .terminal ⟨"Rules", [.step "before"]⟩
  obtain ⟨found, accounts, hfound, -, htraced⟩ := hforms [s]
  obtain ⟨found', accounts', hfound', -, htraced'⟩ := hrules s [] s rfl
  have htexts : (c.searchForms .terminal [s] ⟨"Forms", [.step "before"]⟩).1.map
      (fun m => m.derived.map Formula.text) = [["A", "B"]] := rfl
  rw [hfound] at htexts
  have htexts' : (c.searchRules .terminal s [] ⟨"Rules", [.step "before"]⟩).toOption.map
      (fun r => (r.1.map fun m => m.derived.map Formula.text, r.1.map RuleMatch.spliced)) =
        some ([["B & A"]], [["B & A"]]) := rfl
  rw [hfound'] at htexts'
  obtain ⟨hderived, hspliced⟩ := Prod.mk.inj (Option.some.inj htexts')
  exact ⟨c, rfl, s, rfl, ⟨found, accounts, hfound, htexts, htraced.titles, htraced⟩,
    ⟨found', accounts', hfound', hderived, hspliced, htraced'⟩, (hrefused s [2] rfl).2⟩

end Catalogue

end Sentential
