import Sentential.Symbol

/-!
# `Sentential.Assignment` — values given to symbols, in order

A row of a truth table gives truth values to symbols, a match gives statements to pattern variables, and a
table in the making gives each symbol its constant column. All three are an `Assignment`: pairs of a symbol
and a value in the order in which the symbols were first given one, no symbol twice.

## Contents
* `Assignment` — the pairs, with no symbol twice
* `get?`, `insert`, `ofList`, `keys` — a repeated symbol keeps its place and takes the later value
* `get?_insert`, `pairs_insert` — what an insertion does to look-up, and to the pairs
* `get?_eq_some_iff`, `mem_keys_iff`, `get?_eq_none_iff` — which symbols have a value, and which one
-/

namespace Sentential

/-- Values given to symbols, in the order in which the symbols were first given one. -/
structure Assignment (ν : Type) where
  pairs : List (Symbol × ν)
  nodup : (pairs.map Prod.fst).Nodup

namespace Assignment

variable {ν : Type}

/-- The symbols that have a value, in order. -/
def keys (a : Assignment ν) : List Symbol := a.pairs.map Prod.fst

/-- No symbol has a value. -/
def empty : Assignment ν := ⟨[], List.nodup_nil⟩

/-- Look-up in a list of pairs. -/
def lookup (s : Symbol) : List (Symbol × ν) → Option ν
  | [] => none
  | (t, v) :: rest => if t = s then some v else lookup s rest

/-- The value of a symbol. -/
def get? (a : Assignment ν) (s : Symbol) : Option ν := lookup s a.pairs

/-- A value put at the place of its symbol, or at the end if the symbol has no place. -/
def put (s : Symbol) (v : ν) : List (Symbol × ν) → List (Symbol × ν)
  | [] => [(s, v)]
  | (t, w) :: rest => if t = s then (t, v) :: rest else (t, w) :: put s v rest

/-! ## Insertion keeps every symbol in one place -/

theorem keys_put_mem {s t : Symbol} {v : ν} {pairs : List (Symbol × ν)} :
    t ∈ (put s v pairs).map Prod.fst ↔ t = s ∨ t ∈ pairs.map Prod.fst := by
  induction pairs with
  | nil => simp [put]
  | cons p rest ih =>
    obtain ⟨u, w⟩ := p
    by_cases h : u = s
    · subst h; simp [put]
    · simp only [put, h, if_false, List.map_cons, List.mem_cons, ih]
      constructor
      · rintro (rfl | rfl | h') <;> simp_all
      · rintro (rfl | rfl | h') <;> simp_all

/-- A symbol that has no place yet is put at the end. -/
theorem put_of_not_mem {s : Symbol} {v : ν} {pairs : List (Symbol × ν)} (h : s ∉ pairs.map Prod.fst) :
    put s v pairs = pairs ++ [(s, v)] := by
  induction pairs with
  | nil => rfl
  | cons p rest ih =>
    rw [List.map_cons, List.mem_cons, not_or] at h
    have hne : ¬p.1 = s := fun heq => h.1 heq.symm
    rw [put, if_neg hne, ih h.2, List.cons_append]

theorem nodup_put {s : Symbol} {v : ν} {pairs : List (Symbol × ν)}
    (h : (pairs.map Prod.fst).Nodup) : ((put s v pairs).map Prod.fst).Nodup := by
  induction pairs with
  | nil => simp [put]
  | cons p rest ih =>
    obtain ⟨u, w⟩ := p
    simp only [List.map_cons, List.nodup_cons] at h
    by_cases hu : u = s
    · subst hu; simpa [put] using h
    · rw [put, if_neg hu, List.map_cons, List.nodup_cons, keys_put_mem]
      exact ⟨fun hm => hm.elim hu h.1, ih h.2⟩

/-- A symbol given a value: a repeated symbol keeps its place and takes the later value. -/
def insert (a : Assignment ν) (s : Symbol) (v : ν) : Assignment ν :=
  ⟨put s v a.pairs, nodup_put a.nodup⟩

/-- The assignment that pairs put one after another make. -/
def ofList (pairs : List (Symbol × ν)) : Assignment ν :=
  pairs.foldl (fun a p => a.insert p.1 p.2) empty

/-! ## Look-up -/

@[simp] theorem get?_empty (s : Symbol) : (empty : Assignment ν).get? s = none := rfl

theorem lookup_put {s t : Symbol} {v : ν} {pairs : List (Symbol × ν)} :
    lookup t (put s v pairs) = if s = t then some v else lookup t pairs := by
  induction pairs with
  | nil => rfl
  | cons p rest ih =>
    obtain ⟨u, w⟩ := p
    by_cases h : u = s
    · subst h; by_cases h' : u = t <;> simp [put, lookup, h']
    · by_cases h' : u = t
      · subst h'
        have h'' : ¬ s = u := fun e => h e.symm
        simp [put, lookup, h, h'']
      · simp [put, lookup, h, h', ih]

theorem get?_insert (a : Assignment ν) (s t : Symbol) (v : ν) :
    (a.insert s v).get? t = if s = t then some v else a.get? t :=
  lookup_put

/-- Among pairs of different symbols each symbol has its own value. -/
theorem lookup_eq_some_iff {pairs : List (Symbol × ν)} (h : (pairs.map Prod.fst).Nodup) {s : Symbol} {v : ν} :
    lookup s pairs = some v ↔ (s, v) ∈ pairs := by
  induction pairs with
  | nil => simp [lookup]
  | cons p rest ih =>
    obtain ⟨hnew, hrest⟩ := List.nodup_cons.mp h
    unfold lookup
    rw [List.mem_cons]
    by_cases hp : p.1 = s
    · -- the symbol has no second pair
      have hnone : (s, v) ∉ rest := fun hmem => hnew (hp ▸ List.mem_map_of_mem hmem)
      rw [if_pos hp, Option.some.injEq, or_iff_left hnone, Prod.ext_iff]
      exact ⟨fun hv => ⟨hp.symm, hv.symm⟩, fun heq => heq.2.symm⟩
    · have hne : (s, v) ≠ p := fun heq => hp (congrArg Prod.fst heq).symm
      rw [if_neg hp, ih hrest, or_iff_right hne]

/-- The values are those of the pairs. -/
theorem get?_eq_some_iff {a : Assignment ν} {s : Symbol} {v : ν} : a.get? s = some v ↔ (s, v) ∈ a.pairs :=
  lookup_eq_some_iff a.nodup

/-- The symbols listed are those that have a value. -/
theorem mem_keys_iff {a : Assignment ν} {s : Symbol} : s ∈ a.keys ↔ ∃ v, a.get? s = some v := by
  simp [keys, get?_eq_some_iff]

theorem get?_eq_none_iff {a : Assignment ν} {s : Symbol} : a.get? s = none ↔ s ∉ a.keys := by
  rw [mem_keys_iff, ← Option.isSome_iff_exists, Option.not_isSome_iff_eq_none]

/-- A symbol without a value is put at the end. -/
theorem pairs_insert {a : Assignment ν} {s : Symbol} (h : a.get? s = none) (v : ν) :
    (a.insert s v).pairs = a.pairs ++ [(s, v)] :=
  put_of_not_mem (get?_eq_none_iff.mp h)

end Assignment

end Sentential
