import Mathlib

/-!
# Binary search in a sorted list

The search halves an interval until it meets the value or the interval is empty.
It knows the keys by a three-way comparison only. If that is the comparison of a linear order,
the search in a strictly increasing list returns the number of smaller elements, and whether the
value is there.
-/

namespace CsuDbms.SortedSearch

open List

/-- A three-way comparison: the result is negative, zero or positive. -/
class KeyComparator (Key : Type*) where
  compareKeys : Key → Key → Int

open KeyComparator

/-- Keys on which the comparison is that of a linear order. -/
class OrderedKeys (Key : Type*) extends LinearOrder Key, KeyComparator Key where
  compare_neg : ∀ left right : Key, compareKeys left right < 0 ↔ left < right
  compare_zero : ∀ left right : Key, compareKeys left right = 0 ↔ left = right

attribute [simp] OrderedKeys.compare_neg OrderedKeys.compare_zero

section Search

variable {Key : Type*} [KeyComparator Key]

def searchFrom (keys : List Key) (value : Key) : Nat → Nat → Nat → Nat × Bool
  | 0, first, _ => (first, false)
  | fuel + 1, first, count =>
    if count = 0 then (first, false)
    else
      match keys[first + count / 2]? with
      | none => (first, false)
      | some key =>
        if compareKeys key value = 0 then (first + count / 2, true)
        else if compareKeys key value < 0 then
          searchFrom keys value fuel (first + count / 2 + 1) (count - (count / 2 + 1))
        else searchFrom keys value fuel first (count / 2)

/-- Position of the first element that is not smaller, and whether it is equal. -/
def lowerBound (keys : List Key) (value : Key) : Nat × Bool :=
  searchFrom keys value keys.length 0 keys.length

end Search

variable {Key : Type*} [OrderedKeys Key]

@[simp] theorem compare_nonpos (left right : Key) : compareKeys left right ≤ 0 ↔ left ≤ right := by
  rw [le_iff_lt_or_eq, le_iff_lt_or_eq, OrderedKeys.compare_neg, OrderedKeys.compare_zero]

@[simp] theorem compare_pos (left right : Key) : 0 < compareKeys left right ↔ right < left := by
  rw [← not_le, compare_nonpos, not_le]

theorem exists_split {Item : Type*} {items : List (Key × Item)} (low : Key → Prop)
    (closed : ∀ smaller larger, smaller < larger → low larger → low smaller)
    (sorted : (items.map Prod.fst).Pairwise (· < ·)) :
    ∃ before after, items = before ++ after ∧ (∀ item ∈ before, low item.1) ∧
      ∀ item ∈ after, ¬low item.1 := by
  induction items with
  | nil => exact ⟨[], [], by simp⟩
  | cons first rest ih =>
    rw [map_cons, pairwise_cons] at sorted
    by_cases lowFirst : low first.1
    · obtain ⟨before, after, rfl, below, above⟩ := ih sorted.2
      exact ⟨first :: before, after, rfl, forall_mem_cons.mpr ⟨lowFirst, below⟩, above⟩
    · refine ⟨[], first :: rest, rfl, by simp, forall_mem_cons.mpr ⟨lowFirst, ?_⟩⟩
      intro item later lowItem
      exact lowFirst (closed _ _ (sorted.1 item.1 (mem_map_of_mem later)) lowItem)

variable {value : Key} {low high : List Key} {index : Nat}

theorem low_of_getElem? {key : Key} (above : ∀ key ∈ high, value ≤ key)
    (found : (low ++ high)[index]? = some key) (smaller : key < value) : index < low.length := by
  by_contra! beyond
  rw [getElem?_append_right beyond] at found
  exact absurd smaller (above key (mem_of_getElem? found)).not_gt

theorem high_of_getElem? {key : Key} (below : ∀ key ∈ low, key < value)
    (found : (low ++ high)[index]? = some key) (larger : value ≤ key) : low.length ≤ index := by
  by_contra! before
  rw [getElem?_append_left before] at found
  exact absurd larger (below key (mem_of_getElem? found)).not_ge

section

variable (sorted : (low ++ high).Pairwise (· < ·))
include sorted

section

variable (below : ∀ key ∈ low, key < value) (above : ∀ key ∈ high, value ≤ key)
include below above

theorem head_of_getElem? (found : (low ++ high)[index]? = some value) :
    index = low.length ∧ high.head? = some value := by
  have reached := high_of_getElem? below found le_rfl
  rw [getElem?_append_right reached] at found
  cases high with
  | nil => simp at found
  | cons first rest =>
    cases offset : index - low.length with
    | zero =>
      rw [offset] at found
      exact ⟨by omega, found⟩
    | succ count =>
      rw [offset, getElem?_cons_succ] at found
      have ordered := (pairwise_cons.mp (pairwise_append.mp sorted).2.1).1
      have smaller := ordered value (mem_of_getElem? found)
      exact absurd smaller (above first (by simp)).not_gt

/-- The interval always has the boundary between the smaller elements and the
others in it, and an element behind the interval is larger than the value. -/
theorem searchFrom_append (fuel first count : Nat) (enough : count ≤ fuel)
    (starts : first ≤ low.length) (ends : low.length ≤ first + count)
    (inside : first + count ≤ (low ++ high).length)
    (behind : ∀ key, (low ++ high)[first + count]? = some key → value < key) :
    searchFrom (low ++ high) value fuel first count =
      (low.length, decide (high.head? = some value)) := by
  have empty : ∀ first, first = low.length →
      (∀ key, (low ++ high)[first]? = some key → value < key) →
      (first, false) = (low.length, decide (high.head? = some value)) := by
    rintro first rfl behind
    have absent : high.head? ≠ some value := by
      intro head
      refine lt_irrefl value (behind value ?_)
      rwa [getElem?_append_right (Nat.le_refl _), Nat.sub_self, ← head?_eq_getElem?]
    simp [absent]
  fun_induction searchFrom (low ++ high) value fuel first count with
  | case1 first count =>
    obtain rfl : count = 0 := by omega
    exact empty first (by omega) behind
  | case2 _ first => exact empty first (by omega) behind
  | case3 _ _ _ _ missing =>
    rw [getElem?_eq_none_iff] at missing
    omega
  | case4 _ _ _ _ _ found equal =>
    obtain rfl := (OrderedKeys.compare_zero _ _).mp equal
    obtain ⟨index, head⟩ := head_of_getElem? sorted below above found
    simp [index, head]
  | case5 _ first count some _ found _ smaller ih =>
    have before := low_of_getElem? above found ((OrderedKeys.compare_neg _ _).mp smaller)
    have same : first + count / 2 + 1 + (count - (count / 2 + 1)) = first + count := by omega
    refine ih (by omega) (by omega) (by omega) (by omega) ?_
    rwa [same]
  | case6 _ _ _ _ _ found different larger ih =>
    rw [OrderedKeys.compare_zero] at different
    rw [OrderedKeys.compare_neg] at larger
    have after := high_of_getElem? below found (not_lt.mp larger)
    refine ih (by omega) starts after (by omega) fun other same => ?_
    obtain rfl := Option.some.inj (same.symm.trans found)
    exact lt_of_le_of_ne (not_lt.mp larger) (Ne.symm different)

theorem lowerBound_append :
    lowerBound (low ++ high) value = (low.length, decide (high.head? = some value)) := by
  refine searchFrom_append sorted below above _ 0 _ le_rfl (Nat.zero_le _) (by simp) (by simp) ?_
  intro key found
  simp at found

end

end

end CsuDbms.SortedSearch
