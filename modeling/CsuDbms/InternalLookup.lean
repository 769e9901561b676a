import CsuDbms.BplusTreeLevels
import CsuDbms.IndexKeys

/-!
# Lookup and insertion in an internal node

A child has the keys from its own separator on and below the next one; the first child has
everything below the second key. Where the comparator is one of a linear order, `lookup` finds
that child, and `insert` puts a pair where lookups in its range then lead.
-/

namespace CsuDbms.BplusTreeModel

open SortedSearch KeyComparator List

section Node

variable {Key : Type} [KeyComparator Key]

/-- The found flag of `InternalIndexNodeHandler::lookup`. -/
def internalFound (items : List (Key × Nat)) (key : Key) : Bool :=
  if items.length = 0 then false else (lowerBound (items.tail.map Prod.fst) key).2

def internalInsert (items : List (Key × Nat)) (key : Key) (page : Nat) : List (Key × Nat) :=
  recoverInsertItems (insertPosition items key) [(key, page)] items

def ChildRange (items : List (Key × Nat)) (key : Key) (index : Nat) : Prop :=
  index < items.length ∧
    (∀ item, 0 < index → items[index]? = some item → compareKeys item.1 key ≤ 0) ∧
    ∀ next, items[index + 1]? = some next → compareKeys key next.1 < 0

end Node

variable {Key : Type} [OrderedKeys Key] {items rest : List (Key × Nat)} {key : Key}

theorem child_range_lookup (sorted : SepSorted items) {index : Nat} (range : ChildRange items key index) :
    internalLookup items key = index := by
  obtain ⟨inside, low, high⟩ := range
  simp only [compare_nonpos, OrderedKeys.compare_neg] at low high
  have parts : items = items.take index ++ items[index] :: items.drop (index + 1) := by
    rw [getElem_cons_drop, take_append_drop]
  rw [parts, internalLookup_eq (parts ▸ sorted)]
  · simp [inside.le]
  · intro before
    exact low _ (by simp at before; omega) (getElem?_eq_getElem inside)
  · intro next behind
    exact high next (by simpa [head?_drop] using behind)

theorem exists_child_range (some : items ≠ []) (sorted : SepSorted items) (key : Key) :
    ∃ index, ChildRange items key index := by
  obtain ⟨first, rest, rfl⟩ := exists_cons_of_ne_nil some
  obtain ⟨before, after, rfl, below, above⟩ := exists_split (· ≤ key)
    (fun _ _ less least => less.le.trans least) sorted
  refine ⟨before.length, by simp, fun item inner found => (compare_nonpos _ _).mpr ?_,
    fun next found => (OrderedKeys.compare_neg _ _).mpr ?_⟩
  · obtain ⟨count, length⟩ := Nat.exists_eq_succ_of_ne_zero inner.ne'
    rw [length, getElem?_cons_succ, getElem?_append_left (by omega)] at found
    exact below item (mem_of_getElem? found)
  · rw [getElem?_cons_succ, getElem?_append_right le_rfl] at found
    exact not_le.mp (above next (mem_of_getElem? found))

section Split

variable {first : Key × Nat} {before after : List (Key × Nat)}
  (sorted : SepSorted (first :: (before ++ after))) (below : ∀ item ∈ before, item.1 < key)
include sorted below

theorem insert_pairwise {relation : Key → Key → Prop} (weaker : ∀ left right, left < right →
    relation left right) (above : ∀ item ∈ after, relation key item.1) (page : Nat) :
    ((before ++ (key, page) :: after).map Prod.fst).Pairwise relation := by
  have pairs : (before.map Prod.fst ++ after.map Prod.fst).Pairwise (· < ·) := by
    simpa [SepSorted] using sorted
  obtain ⟨inBefore, inAfter, across⟩ := pairwise_append.mp pairs
  rw [map_append, map_cons, pairwise_append, pairwise_cons]
  refine ⟨inBefore.imp (weaker _ _), ⟨by simpa using above, inAfter.imp (weaker _ _)⟩, ?_⟩
  intro left member right
  obtain ⟨item, inside, rfl⟩ := mem_map.mp member
  exact forall_mem_cons.mpr ⟨weaker _ _ (below item inside), fun right later =>
    weaker _ _ (across _ member _ later)⟩ right

theorem mem_iff_head (above : ∀ item ∈ after, key ≤ item.1) :
    key ∈ (before ++ after).map Prod.fst ↔ (after.map Prod.fst).head? = some key := by
  have pairs : (before.map Prod.fst ++ after.map Prod.fst).Pairwise (· < ·) := by
    simpa [SepSorted] using sorted
  rw [map_append, mem_append]
  constructor
  · rintro (earlier | later)
    · obtain ⟨item, inside, rfl⟩ := mem_map.mp earlier
      exact absurd (below item inside) (lt_irrefl _)
    · cases after with
      | nil => cases later
      | cons next after =>
        rcases mem_cons.mp later with rfl | behind
        · rfl
        · have ordered := (pairwise_cons.mp (pairwise_append.mp pairs).2.1).1
          exact absurd (ordered key behind) (above next mem_cons_self).not_gt
  · exact fun head => .inr (mem_of_mem_head? head)

end Split

theorem internal_node {items : List (Key × Nat)} (inhabited : items ≠ []) (sorted : SepSorted items)
    (key : Key) (page : Nat) :
    (∀ index, ChildRange items key index ↔ internalLookup items key = index) ∧
      insertPosition items key = items.tail.countP (·.1 < key) + 1 ∧
      (internalFound items key = true ↔ key ∈ items.tail.map Prod.fst) ∧
      ((internalInsert items key page).tail.map Prod.fst).Pairwise (· ≤ ·) ∧
      (key ∉ items.tail.map Prod.fst → SepSorted (internalInsert items key page)) ∧
      ∀ other, key ≤ other →
        (∀ next ∈ (items.drop (insertPosition items key)).head?, other < next.1) →
        (internalInsert items key page)[internalLookup (internalInsert items key page) other]? =
          (key, page) := by
  have lookup : ∀ index, ChildRange items key index ↔ internalLookup items key = index := by
    obtain ⟨child, range⟩ := exists_child_range inhabited sorted key
    have found := child_range_lookup sorted range
    exact fun index => ⟨child_range_lookup sorted, fun same => same ▸ found.symm ▸ range⟩
  obtain ⟨first, rest, rfl⟩ := exists_cons_of_ne_nil inhabited
  obtain ⟨before, after, rfl, below, above⟩ := exists_split (· < key) (fun _ _ => lt_trans) sorted
  simp only [not_lt] at above
  have found := mem_iff_head sorted below above
  have position : insertPosition (first :: before ++ after) key = before.length + 1 :=
    insertPosition_eq (by simp) sorted below above
  rw [cons_append] at position
  have inserted : internalInsert (first :: (before ++ after)) key page =
      first :: (before ++ (key, page) :: after) := by
    simp [internalInsert, recoverInsertItems, position]
  have flag : internalFound (first :: (before ++ after)) key =
      decide ((after.map Prod.fst).head? = some key) := by
    have search : lowerBound (before.map Prod.fst ++ after.map Prod.fst) key = _ :=
      lowerBound_append (by simpa [SepSorted] using sorted) (by simpa using below)
        (by simpa using above)
    simp [internalFound, search]
  have smaller : before.countP (·.1 < key) = before.length :=
    countP_eq_length.mpr (by simpa using below)
  have larger : after.countP (·.1 < key) = 0 := countP_eq_zero.mpr (by simpa using above)
  have strict : key ∉ (before ++ after).map Prod.fst →
      SepSorted (first :: (before ++ (key, page) :: after)) := by
    intro absent
    refine insert_pairwise sorted below (fun _ _ => id) (fun item later => ?_) page
    refine lt_of_le_of_ne (above item later) fun same => absent ?_
    exact same ▸ mem_map_of_mem (mem_append_right before later)
  rw [inserted, position, flag, decide_eq_true_iff, tail_cons, tail_cons]
  refine ⟨lookup, ?_, found.symm, ?_, strict, fun other least next => ?_⟩
  · rw [countP_append, smaller, larger]
  · exact insert_pairwise sorted below (fun _ _ => le_of_lt) above page
  · have behind : ∀ item ∈ after.head?, other < item.1 := by simpa using next
    have absent : key ∉ (before ++ after).map Prod.fst := by
      rw [found, head?_map, Option.map_eq_some_iff]
      rintro ⟨item, head, rfl⟩
      exact absurd (behind item head) least.not_gt
    have child : internalLookup (first :: before ++ (key, page) :: after) other = _ :=
      internalLookup_eq (strict absent) (fun _ => least) behind
    rw [cons_append] at child
    simp [child]

section Keys

open IndexKeys IndexEntry

def intKey (number : BitVec 32) (slot : Int) : IndexKey .ints := toLex (number, toLex (1, slot))

def threeChildren : List (IndexKey .ints × Nat) :=
  [(intKey 0 0, 10), (intKey 5 1, 11), (intKey 9 2, 12)]

theorem seven_in_second_child : internalLookup threeChildren (intKey 7 3) = 1 ∧
    SepSorted (internalInsert threeChildren (intKey 7 3) 13) := by
  have sorted : SepSorted threeChildren := by
    unfold SepSorted
    decide +kernel
  have node := internal_node (by simp [threeChildren]) sorted (intKey 7 3) 13
  refine ⟨(node.1 1).mp ⟨by simp [threeChildren], ?_, ?_⟩, node.2.2.2.2.1 (by decide +kernel)⟩
  · rintro item - ⟨⟩
    decide +kernel
  · rintro next ⟨⟩
    decide +kernel

def floatKey (bits : BitVec 32) (slot : Int) : Entry := ⟨.floats bits, ⟨1, slot⟩⟩

/-- The numbers 0 and 1.5E-6, which differ by more than the tolerance. -/
def floatChildren : List (Entry × Nat) :=
  [(floatKey 0 0, 10), (floatKey 0 5, 11), (floatKey 0x35C9539C 1, 12)]

/-- 0.8E-6 counts as equal to both, so its `RID` decides: it is below the first key and above the
second. -/
theorem float_in_two_children :
    (floatChildren.tail.map Prod.fst).Pairwise (compareKeys · · < 0) ∧
      ChildRange floatChildren (floatKey 0x3556BF95 3) 0 ∧
      ChildRange floatChildren (floatKey 0x3556BF95 3) 2 ∧
      internalLookup floatChildren (floatKey 0x3556BF95 3) = 2 := by
  refine ⟨by decide +kernel, ⟨by decide, ?_, ?_⟩, ⟨by decide, ?_, ?_⟩, by decide +kernel⟩
  · rintro item ⟨⟩
  · rintro next ⟨⟩
    decide +kernel
  · rintro item - ⟨⟩
    decide +kernel
  · rintro next ⟨⟩

end Keys

end CsuDbms.BplusTreeModel
