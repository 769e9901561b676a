import CsuDbms.BplusTreeModel

/-!
# A B+ tree as a tower of levels

The nodes of a tree are kept level by level, each level from left to right. A node
stands in its parent as an entry, a key with a page number; the items of a level,
taken together, are the entries of the level below. The first key of an internal
node is the key of its own entry, and a leaf is kept with the key of its entry.
-/

namespace CsuDbms.BplusTreeModel

open List
open SortedSearch

structure Leaf (Key Rid : Type) where
  sep : Key
  page : Nat
  items : List (Key × Rid)

structure Inner (Key : Type) where
  page : Nat
  first : Key × Nat
  rest : List (Key × Nat)

section Levels

variable {Key Rid : Type}

def Leaf.keys (leaf : Leaf Key Rid) : List Key := leaf.items.map Prod.fst

def Leaf.entry (leaf : Leaf Key Rid) : Key × Nat := (leaf.sep, leaf.page)

def Inner.items (inner : Inner Key) : List (Key × Nat) := inner.first :: inner.rest

def Inner.entry (inner : Inner Key) : Key × Nat := (inner.first.1, inner.page)

def Tower : List (Key × Nat) → List (List (Inner Key)) → List (Key × Nat) → Prop
  | base, [], top => base = top
  | base, level :: above, top =>
    level.flatMap Inner.items = base ∧ Tower (level.map Inner.entry) above top

def pagesOf (levels : List (List (Inner Key))) : List Nat :=
  levels.flatMap fun level => level.map Inner.page

theorem entries_sublist (level : List (Inner Key)) :
    ((level.map Inner.entry).map Prod.fst).Sublist
      ((level.flatMap Inner.items).map Prod.fst) := by
  induction level with
  | nil => simp
  | cons inner rest ih =>
    simp only [map_cons, flatMap_cons, map_append, Inner.items, Inner.entry,
      cons_append]
    exact (ih.trans (sublist_append_right _ _)).cons_cons _

end Levels

section Separators

variable {Key : Type} [OrderedKeys Key]

def SepSorted (entries : List (Key × Nat)) : Prop :=
  (entries.tail.map Prod.fst).Pairwise (· < ·)

variable {before after : List (Key × Nat)} {entry : Key × Nat}

theorem SepSorted.rest
    (sorted : SepSorted (before ++ entry :: after)) : (after.map Prod.fst).Pairwise (· < ·) := by
  refine List.Pairwise.sublist ?_ sorted
  refine List.Sublist.map _ ?_
  cases before with
  | nil => simp
  | cons first before => simp

theorem SepSorted.part {middle : List (Key × Nat)}
    (sorted : SepSorted (before ++ middle ++ after)) : SepSorted middle := by
  unfold SepSorted at sorted ⊢
  refine List.Pairwise.sublist (List.Sublist.map _ ?_) sorted
  cases middle with
  | nil => simp
  | cons entry middle =>
    cases before with
    | nil => simp
    | cons first before =>
      have run : (before ++ (entry :: middle)).Sublist (before ++ (entry :: middle) ++ after) :=
        sublist_append_left _ _
      exact ((sublist_cons_self entry middle).trans
        (sublist_append_right before _)).trans run

theorem sepSorted_entries {level : List (Inner Key)}
    (sorted : SepSorted (level.flatMap Inner.items)) : SepSorted (level.map Inner.entry) := by
  cases level with
  | nil => exact sorted
  | cons inner rest =>
    have sublist : ((rest.map Inner.entry).map Prod.fst).Sublist
        ((inner.rest ++ rest.flatMap Inner.items).map Prod.fst) := by
      rw [map_append]
      exact (entries_sublist rest).trans (sublist_append_right _ _)
    exact List.Pairwise.sublist sublist sorted

variable {key : Key}

theorem insertPosition_eq {front back : List (Key × Nat)} (some : front ≠ [])
    (sorted : SepSorted (front ++ back)) (below : ∀ item ∈ front.tail, item.1 < key)
    (above : ∀ item ∈ back, key ≤ item.1) :
    insertPosition (front ++ back) key = front.length := by
  cases front with
  | nil => exact absurd rfl some
  | cons first front =>
    have pairs : (front.map Prod.fst ++ back.map Prod.fst).Pairwise (· < ·) := by
      simpa [SepSorted] using sorted
    have search : lowerBound (front.map Prod.fst ++ back.map Prod.fst) key = _ :=
      lowerBound_append pairs (by simpa using below) (by simpa using above)
    simp [insertPosition, search]

theorem SepSorted.above (sorted : SepSorted (before ++ entry :: after))
    (next : ∀ item ∈ after.head?, key < item.1) :
    ∀ item ∈ after, key < item.1 := by
  cases after with
  | nil => simp
  | cons first after =>
    have larger := next first rfl
    have pairs := (pairwise_cons.mp sorted.rest).1
    intro item member
    rcases mem_cons.mp member with rfl | later
    · exact larger
    · exact larger.trans (pairs item.1 (mem_map_of_mem later))

theorem SepSorted.below (sorted : SepSorted (before ++ entry :: after)) (least : entry.1 ≤ key) :
    ∀ item ∈ before.tail, item.1 < key := by
  cases before with
  | nil => simp
  | cons first before =>
    have pairs : ((before ++ entry :: after).map Prod.fst).Pairwise (· < ·) := sorted
    rw [map_append, pairwise_append] at pairs
    intro item member
    have smaller := pairs.2.2 item.1 (mem_map_of_mem member) entry.1 (by simp)
    exact smaller.trans_le least

theorem internalLookup_eq {front back : List (Key × Nat)} {item : Key × Nat}
    (sorted : SepSorted (front ++ item :: back)) (low : front ≠ [] → item.1 ≤ key)
    (high : ∀ next ∈ back.head?, key < next.1) :
    internalLookup (front ++ item :: back) key = front.length := by
  have above := sorted.above high
  have nonempty : (front ++ item :: back).length ≠ 0 := by simp
  -- The key itself may stand in the node, and then it is the key of the child.
  by_cases equal : front ≠ [] ∧ item.1 = key
  · obtain ⟨inside, rfl⟩ := equal
    have position : insertPosition (front ++ item :: back) item.1 = front.length :=
      insertPosition_eq inside sorted (sorted.below le_rfl) fun other member => by
        rcases mem_cons.mp member with rfl | later
        · exact le_rfl
        · exact (above other later).le
    rw [internalLookup, if_neg nonempty, position]
    simp
  · have below : ∀ other ∈ (front ++ [item]).tail, other.1 < key := by
      cases front with
      | nil => simp
      | cons first front =>
        have least := low (by simp)
        have strict : item.1 < key := lt_of_le_of_ne least fun same => equal ⟨by simp, same⟩
        intro other member
        rw [cons_append, tail_cons, mem_append, mem_singleton] at member
        rcases member with earlier | rfl
        · exact sorted.below least other earlier
        · exact strict
    have regroup : front ++ item :: back = (front ++ [item]) ++ back := by simp
    have position : insertPosition (front ++ item :: back) key = front.length + 1 := by
      rw [regroup, insertPosition_eq (by simp) (regroup ▸ sorted) below
        fun other member => (above other member).le]
      simp
    rw [internalLookup, if_neg nonempty, position]
    cases back with
    | nil => simp
    | cons next back =>
      have larger := high next rfl
      simp [larger]

end Separators

section Stored

variable {Key Rid : Type}

def nextOf (leaves : List (Leaf Key Rid)) (last : Option Nat) : Option Nat :=
  match leaves with
  | [] => last
  | leaf :: _ => some leaf.page

def LeavesStored (bodies : Nat → Body Key Rid) : List (Leaf Key Rid) → Option Nat → Prop
  | [], _ => True
  | leaf :: rest, last =>
    bodies leaf.page = .leaf (nextOf rest last) leaf.items ∧ LeavesStored bodies rest last

theorem nextOf_append (front back : List (Leaf Key Rid)) (last : Option Nat) :
    nextOf (front ++ back) last = nextOf front (nextOf back last) := by
  cases front <;> rfl

theorem leavesStored_append {bodies : Nat → Body Key Rid} {front back : List (Leaf Key Rid)}
    {last : Option Nat} :
    LeavesStored bodies (front ++ back) last ↔
      LeavesStored bodies front (nextOf back last) ∧ LeavesStored bodies back last := by
  induction front with
  | nil => simp [LeavesStored]
  | cons leaf front ih =>
    rw [cons_append, LeavesStored, ih, nextOf_append, LeavesStored, and_assoc]

@[mk_iff]
structure InnerStored (bodies : Nat → Body Key Rid) (parents : Nat → Option Nat)
    (inner : Inner Key) : Prop where
  body : bodies inner.page = .internal inner.items
  parents : ∀ item ∈ inner.items, parents item.2 = some inner.page

def LevelsStored (bodies : Nat → Body Key Rid) (parents : Nat → Option Nat)
    (levels : List (List (Inner Key))) : Prop :=
  ∀ level ∈ levels, ∀ inner ∈ level, InnerStored bodies parents inner

theorem levelsStored_cons {bodies : Nat → Body Key Rid} {parents : Nat → Option Nat}
    {level : List (Inner Key)} {levels : List (List (Inner Key))} :
    LevelsStored bodies parents (level :: levels) ↔
      (∀ inner ∈ level, InnerStored bodies parents inner) ∧
        LevelsStored bodies parents levels := by
  simp [LevelsStored]

end Stored

end CsuDbms.BplusTreeModel
