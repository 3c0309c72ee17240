/-!
# `Sentential.Distinct` — the first of each, in order

The symbols of a sentence are listed by first occurrence, and derived statements by the first derivation of
each text. Both are the same operation: of the members with one key, keep the first.

## Contents
* `distinctBy` — the members of a list whose key has not occurred before
* `distinct` — the case where a member is its own key
* `distinctBy_sublist`, `mem_distinct`, `nodup_distinct` — nothing is lost, nothing occurs twice
* `pairwise_idxOf_distinct` — the order is that of the first occurrences
* `map_distinctBy`, `distinctBy_eq_distinct`, `distinct_append` — what is kept, and what a second list adds
* `enter`, `foldl_enter` — the same members as entries of a table, each entered under its key
-/

namespace Sentential

variable {α κ : Type} [DecidableEq κ]

/-- The members of a list whose key has not occurred before them. -/
def distinctBy (key : α → κ) : List α → List α
  | [] => []
  | a :: rest => a :: (distinctBy key rest).filter fun b => key b ≠ key a

/-- The distinct members of a list by first occurrence. -/
def distinct (members : List κ) : List κ :=
  distinctBy id members

/-! ## Nothing is lost, nothing occurs twice -/

/-- Keeping the first members leaves the order as it is. -/
theorem distinctBy_sublist (key : α → κ) (members : List α) : (distinctBy key members).Sublist members := by
  induction members with
  | nil => exact .slnil
  | cons a rest ih => exact (List.filter_sublist.trans ih).cons_cons a

@[simp] theorem distinct_nil : distinct ([] : List κ) = [] := rfl

theorem distinct_cons (a : κ) (rest : List κ) :
    distinct (a :: rest) = a :: (distinct rest).filter (· ≠ a) := rfl

@[simp] theorem mem_distinct {a : κ} {members : List κ} : a ∈ distinct members ↔ a ∈ members := by
  induction members with
  | nil => simp
  | cons b rest ih =>
    by_cases h : a = b
    · simp [distinct_cons, h]
    · simp [distinct_cons, h, ih]

theorem nodup_distinct (members : List κ) : (distinct members).Nodup := by
  induction members with
  | nil => simp
  | cons b rest ih =>
    rw [distinct_cons, List.nodup_cons]
    exact ⟨by simp, List.Pairwise.filter _ ih⟩

/-- Members are listed in the order of their first occurrences. -/
theorem pairwise_idxOf_distinct (members : List κ) :
    (distinct members).Pairwise fun a b => members.idxOf a < members.idxOf b := by
  induction members with
  | nil => exact .nil
  | cons a rest ih =>
    have hplace : ∀ b, b ≠ a → (a :: rest).idxOf b = rest.idxOf b + 1 := by
      intro b hb
      rw [List.idxOf_cons, beq_false_of_ne hb.symm, cond_false]
    rw [distinct_cons]
    constructor
    · intro b hb
      have hne : b ≠ a := of_decide_eq_true (List.mem_filter.mp hb).2
      rw [List.idxOf_cons_self, hplace b hne]
      exact Nat.succ_pos _
    · rw [List.pairwise_filter]
      refine ih.imp fun {b b'} hlt hb hb' => ?_
      rw [hplace b (of_decide_eq_true hb), hplace b' (of_decide_eq_true hb')]
      exact Nat.succ_lt_succ hlt

/-! ## What is kept -/

/-- The members kept have the distinct keys. -/
theorem map_distinctBy (key : α → κ) (members : List α) :
    (distinctBy key members).map key = distinct (members.map key) := by
  induction members with
  | nil => rfl
  | cons a rest ih =>
    rw [distinctBy, List.map_cons, List.map_cons, distinct_cons, ← ih, List.filter_map]
    rfl

/-- Where no two members share a key, keys decide no more than the members themselves. -/
theorem distinctBy_eq_distinct [DecidableEq α] {key : α → κ} {members : List α}
    (hkey : ∀ a ∈ members, ∀ b ∈ members, key a = key b → a = b) : distinctBy key members = distinct members := by
  induction members with
  | nil => rfl
  | cons a rest ih =>
    have hrest : distinctBy key rest = distinct rest :=
      ih fun b hb c hc => hkey b (List.mem_cons_of_mem a hb) c (List.mem_cons_of_mem a hc)
    rw [distinctBy, distinct_cons, hrest]
    congr 1
    refine List.filter_congr fun b hb => ?_
    have hiff : key b = key a ↔ b = a :=
      ⟨hkey b (List.mem_cons_of_mem a (mem_distinct.mp hb)) a List.mem_cons_self, congrArg key⟩
    exact decide_eq_decide.mpr (not_congr hiff)

/-- A second list adds those of its members that the first one lacks. -/
theorem distinct_append (first second : List κ) :
    distinct (first ++ second) = distinct first ++ (distinct second).filter (· ∉ first) := by
  induction first with
  | nil => exact (List.filter_eq_self.mpr (by simp)).symm
  | cons a rest ih =>
    rw [List.cons_append, distinct_cons, distinct_cons, ih, List.filter_append, List.cons_append,
      List.filter_filter]
    congr 2
    refine List.filter_congr fun b _ => ?_
    simp

/-! ## Entries under keys -/

/-- Entries with one more member under its key, unless the key has an entry. -/
def enter (key : α → κ) (entries : List (κ × α)) (a : α) : List (κ × α) :=
  if key a ∈ entries.map Prod.fst then entries else entries ++ [(key a, a)]

/-- To the entries there are, a list adds its first members of the keys without entry. -/
theorem foldl_enter_append (key : α → κ) (members : List α) (entries : List (κ × α)) :
    members.foldl (enter key) entries =
      entries ++ ((distinctBy key members).filter (key · ∉ entries.map Prod.fst)).map fun a => (key a, a) := by
  induction members generalizing entries with
  | nil => exact (List.append_nil entries).symm
  | cons a rest ih =>
    rw [List.foldl_cons, ih, distinctBy, enter]
    split
    · rename_i hold
      -- what shares the key of the first member is not added in any case
      rw [List.filter_cons_of_neg (by simpa using hold), List.filter_filter]
      congr 2
      refine List.filter_congr fun b _ => ?_
      by_cases hb : key b = key a
      · simp [hb, hold]
      · simp [hb]
    · rename_i hnew
      rw [List.filter_cons_of_pos (by simpa using hnew), List.filter_filter, List.map_cons, List.append_assoc,
        List.singleton_append]
      congr 3
      refine List.filter_congr fun b _ => Bool.eq_iff_iff.mpr ?_
      simp

/-- **Entering the members one after another** keeps the first of each key, in order. -/
theorem foldl_enter (key : α → κ) (members : List α) :
    members.foldl (enter key) [] = (distinctBy key members).map fun a => (key a, a) := by
  rw [foldl_enter_append, List.filter_eq_self.mpr (by simp), List.nil_append]

end Sentential
