import CsuDbms.BplusTreeShape

/-!
# The leaves and the way down to them

A leaf is responsible for the keys from its separator up to that of the next leaf.
The first leaf has no lower bound. The keys of the leaves, taken from left to right,
then grow, and `find_leaf` ends at the one leaf whose range a key falls into.
-/

namespace CsuDbms.BplusTreeModel

open List SortedSearch

variable {Key Rid : Type}

def contents (leaves : List (Leaf Key Rid)) : List (Key × Rid) := leaves.flatMap Leaf.items

theorem keys_contents (leaves : List (Leaf Key Rid)) :
    (contents leaves).map Prod.fst = leaves.flatMap Leaf.keys := by
  rw [contents, map_flatMap]
  rfl

variable {leaves : List (Leaf Key Rid)}

theorem mem_leafPages {other : Leaf Key Rid}
    (member : other ∈ leaves) : other.page ∈ (leaves.map Leaf.entry).map Prod.snd :=
  mem_map_of_mem (mem_map_of_mem member)

variable [OrderedKeys Key]

@[mk_iff]
structure Ranged (leaves : List (Leaf Key Rid)) : Prop where
  sorted : ∀ leaf ∈ leaves, leaf.keys.Pairwise (· < ·)
  above : ∀ leaf ∈ leaves.tail, ∀ key ∈ leaf.keys, leaf.sep ≤ key
  below : leaves.Pairwise fun leaf later => ∀ key ∈ leaf.keys, key < later.sep

def InRange (before : List (Leaf Key Rid)) (leaf : Leaf Key Rid) (after : List (Leaf Key Rid))
    (key : Key) : Prop :=
  (before ≠ [] → leaf.sep ≤ key) ∧ ∀ later ∈ after, key < later.sep

section Descent

theorem exists_child (first : Key × Nat) (rest : List (Key × Nat)) (key : Key) :
    ∃ front item back, first :: rest = front ++ item :: back ∧ (front ≠ [] → item.1 ≤ key) ∧
      ∀ next ∈ back.head?, key < next.1 := by
  induction rest generalizing first with
  | nil => exact ⟨[], first, [], rfl, fun some => absurd rfl some, by simp⟩
  | cons next rest ih =>
    by_cases smaller : key < next.1
    · exact ⟨[], first, next :: rest, rfl, fun some => absurd rfl some, by simpa using smaller⟩
    · obtain ⟨front, item, back, shape, low, high⟩ := ih next
      refine ⟨first :: front, item, back, by rw [shape, cons_append], fun _ => ?_, high⟩
      cases front with
      | nil =>
        obtain ⟨rfl, _⟩ : next = item ∧ rest = back := by simpa using shape
        exact not_lt.mp smaller
      | cons other front => exact low (by simp)

variable {config : Config Key} {mtr : Mtr Key Rid} {base : List (Key × Nat)}
  {levels : List (List (Inner Key))} {root : Nat}

def Ascends (parents : Nat → Option Nat) : Nat → List Nat → Prop
  | page, [] => parents page = none
  | page, parent :: path => parents page = some parent ∧ Ascends parents parent path

theorem descend (upper : Upper config mtr base levels root) (key : Key) :
    ∃ before entry after path, base = before ++ entry :: after ∧
      (before ≠ [] → entry.1 ≤ key) ∧ (∀ next ∈ after.head?, key < next.1) ∧
      Ascends mtr.parents entry.2 path ∧
      ∀ fuel, mtr.tree.findLeaf key (fuel + levels.length) root =
        (mtr.tree.findLeaf key fuel entry.2).map (· ++ path) := by
  induction levels generalizing base with
  | nil =>
    refine ⟨[], (config.zeroKey, root), [], [], upper.tower, by simp, by simp, upper.top,
      fun fuel => ?_⟩
    cases mtr.tree.findLeaf key fuel root <;> simp [Except.map]
  | cons level higher ih =>
    obtain ⟨before, entry, after, path, row, low, high, climbs, goes⟩ := ih upper.above
    obtain ⟨left, right, rfl, rfl, tail⟩ := map_eq_append_iff.mp row
    obtain ⟨inner, right, rfl, rfl, rfl⟩ := map_eq_cons_iff.mp tail
    obtain ⟨front, item, back, items, least, next⟩ := exists_child inner.first inner.rest key
    have content : inner.items = front ++ item :: back := items
    have stored := (levelsStored_cons.mp upper.stored).1 inner (by simp)
    have allocated : mtr.Allocated inner.page :=
      upper.allocated _ (mem_append_right _ (by simp [pagesOf]))
    have whole : base = left.flatMap Inner.items ++ front ++
        item :: (back ++ right.flatMap Inner.items) := by
      rw [← upper.tower.1, flatMap_append, flatMap_cons, content]
      simp
    have sorted : SepSorted (front ++ item :: back) := by
      have part : SepSorted (left.flatMap Inner.items ++ (front ++ item :: back) ++
          right.flatMap Inner.items) := by simpa [whole] using upper.sorted
      exact part.part
    refine ⟨left.flatMap Inner.items ++ front, item, back ++ right.flatMap Inner.items,
      [inner.page] ++ path, whole, ?_, ?_, ⟨stored.parents item (by simp [content]), climbs⟩,
      fun fuel => ?_⟩
    · intro some
      cases front with
      | nil =>
        obtain ⟨rfl, _⟩ : inner.first = item ∧ inner.rest = back := by simpa using items
        refine low fun none => some ?_
        rw [map_eq_nil_iff.mp none]
        rfl
      | cons other front => exact least (by simp)
    · cases back with
      | nil =>
        cases right with
        | nil => simp
        | cons other right => simpa [Inner.items, Inner.entry] using high
      | cons other back => simpa using next
    · have lookup := internalLookup_eq sorted least next
      have step : mtr.tree.findLeaf key (fuel + 1) inner.page =
          (mtr.tree.findLeaf key fuel item.2).map (· ++ [inner.page]) := by
        have page : mtr.tree.getPage inner.page = .ok (mtr.node inner.page) := if_pos allocated
        have body : (mtr.node inner.page).body = .internal inner.items := stored.body
        have child : (mtr.node inner.page).valueAt
            (internalLookup inner.items key) = .ok item.2 := by
          rw [content, lookup, Node.valueAt, Node.childItems, body, content]
          simp
        rw [Tree.findLeaf, page]
        simp only [bind, Except.bind, body, child]
        cases mtr.tree.findLeaf key fuel item.2 <;> rfl
      have longer : fuel + (higher.length + 1) = (fuel + 1) + higher.length := by omega
      rw [length_cons, longer, goes (fuel + 1)]
      change (mtr.tree.findLeaf key (fuel + 1) inner.page).map (· ++ path) = _
      rw [step]
      cases mtr.tree.findLeaf key fuel item.2 <;> simp [Except.map]

end Descent

section Lookup

theorem leafLookup_cut {items : List (Key × Rid)} (key : Key)
    (sorted : (items.map Prod.fst).Pairwise (· < ·)) :
    ∃ front back, items = front ++ back ∧ (∀ other ∈ front.map Prod.fst, other < key) ∧
      (∀ other ∈ back.map Prod.fst, key ≤ other) ∧
      leafLookup items key = (front.length, decide ((back.map Prod.fst).head? = some key)) := by
  obtain ⟨front, back, rfl, below, above⟩ := exists_split (· < key) (fun _ _ => lt_trans) sorted
  have low : ∀ other ∈ front.map Prod.fst, other < key := forall_mem_map.mpr below
  have high : ∀ other ∈ back.map Prod.fst, key ≤ other :=
    forall_mem_map.mpr fun item member => not_lt.mp (above item member)
  rw [map_append] at sorted
  refine ⟨front, back, rfl, low, high, ?_⟩
  rw [leafLookup, map_append, lowerBound_append sorted low high, length_map]

end Lookup

@[mk_iff]
structure LeafSized (config : Config Key) (root : Nat) (leaf : Leaf Key Rid) : Prop where
  most : leaf.items.length ≤ config.leafMaxSize
  some : 0 < leaf.items.length
  least : leaf.page ≠ root → config.minSize .leaf ≤ leaf.items.length

@[mk_iff]
structure Shaped (config : Config Key) (mtr : Mtr Key Rid) (leaves : List (Leaf Key Rid))
    (levels : List (List (Inner Key))) (root : Nat) : Prop where
  upper : Upper config mtr (leaves.map Leaf.entry) levels root
  stored : LeavesStored mtr.bodies leaves none
  ranged : Ranged leaves

@[mk_iff]
structure Built (config : Config Key) (mtr : Mtr Key Rid) (leaves : List (Leaf Key Rid))
    (levels : List (List (Inner Key))) (root : Nat) : Prop
    extends Shaped config mtr leaves levels root where
  leafSized : ∀ leaf ∈ leaves, LeafSized config root leaf
  sized : ∀ level ∈ levels, ∀ inner ∈ level, InnerSized config root inner

section Shaped

variable {config : Config Key} {mtr changed : Mtr Key Rid} {before after : List (Leaf Key Rid)}
  {leaf edited : Leaf Key Rid} {levels : List (List (Inner Key))} {root : Nat}

section

variable (shaped : Shaped config mtr (before ++ leaf :: after) levels root)
include shaped

theorem Shaped.leaf_stored :
    mtr.bodies leaf.page = .leaf (nextOf after none) leaf.items :=
  (leavesStored_append.mp shaped.stored).2.1

theorem Shaped.leaf_allocated :
    mtr.Allocated leaf.page :=
  shaped.upper.allocated _ (mem_append_left _ (mem_leafPages (by simp)))

end

theorem Shaped.find_path (shaped : Shaped config mtr leaves levels root) (key : Key) :
    ∃ before leaf after path, leaves = before ++ leaf :: after ∧ InRange before leaf after key ∧
      mtr.tree.findLeaf key mtr.tree.fuel root = .ok (leaf.page :: path) ∧
      Ascends mtr.parents leaf.page path := by
  obtain ⟨front, entry, back, path, row, low, high, climbs, goes⟩ := descend shaped.upper key
  have sorted := shaped.upper.sorted
  rw [row] at sorted
  have larger := sorted.above high
  obtain ⟨before, rest, rfl, rfl, tail⟩ := map_eq_append_iff.mp row
  obtain ⟨leaf, after, rfl, rfl, rfl⟩ := map_eq_cons_iff.mp tail
  refine ⟨before, leaf, after, path, rfl, ⟨fun some => low ?_, fun later member => ?_⟩, ?_,
    climbs⟩
  · simpa using some
  · exact larger later.entry (mem_map_of_mem member)
  · have height := shaped.upper.height
    have fuel : mtr.tree.fuel = mtr.tree.header.pageCount - levels.length + 1 + levels.length := by
      rw [Tree.fuel]
      omega
    have page : mtr.tree.getPage leaf.page = .ok (mtr.node leaf.page) :=
      if_pos shaped.leaf_allocated
    have body : (mtr.node leaf.page).body = .leaf (nextOf after none) leaf.items :=
      shaped.leaf_stored
    rw [fuel, goes]
    change (mtr.tree.findLeaf key (_ + 1) leaf.page).map _ = _
    simp [Tree.findLeaf, page, bind, Except.bind, body, pure, Except.pure, Except.map]

theorem Shaped.find (shaped : Shaped config mtr leaves levels root) (key : Key) :
    ∃ before leaf after path, leaves = before ++ leaf :: after ∧ InRange before leaf after key ∧
      mtr.tree.findLeaf key mtr.tree.fuel root = .ok (leaf.page :: path) := by
  obtain ⟨before, leaf, after, path, row, range, found, -⟩ := shaped.find_path key
  exact ⟨before, leaf, after, path, row, range, found⟩

end Shaped

def Tree.Valid (config : Config Key) (tree : Tree Key Rid) (entries : List (Key × Rid)) : Prop :=
  tree.root = none ∧ entries = [] ∨
    ∃ leaves levels root, Built config (Mtr.start tree) leaves levels root ∧
      entries = contents leaves

section Deciding

instance Tower.decidable [DecidableEq Key] : (base : List (Key × Nat)) →
    (levels : List (List (Inner Key))) → (top : List (Key × Nat)) → Decidable
    (Tower base levels top)
  | base, [], top => inferInstanceAs (Decidable (base = top))
  | base, level :: above, top =>
    have := Tower.decidable (level.map Inner.entry) above top
    inferInstanceAs (Decidable (level.flatMap Inner.items = base ∧ _))

instance LeavesStored.decidable [DecidableEq Key] [DecidableEq Rid] (bodies : Nat → Body Key Rid) :
    (leaves : List (Leaf Key Rid)) → (last : Option Nat) → Decidable
    (LeavesStored bodies leaves last)
  | [], _ => .isTrue trivial
  | leaf :: rest, last =>
    have := LeavesStored.decidable bodies rest last
    inferInstanceAs (Decidable (bodies leaf.page = .leaf (nextOf rest last) leaf.items ∧ _))

instance [DecidableEq Key] [DecidableEq Rid] (bodies : Nat → Body Key Rid)
    (parents : Nat → Option Nat) (inner : Inner Key) :
    Decidable (InnerStored bodies parents inner) :=
  decidable_of_iff _ (innerStored_iff bodies parents inner).symm

instance (config : Config Key) (root : Nat) (inner : Inner Key) :
    Decidable (InnerSized config root inner) :=
  decidable_of_iff _ (innerSized_iff config root inner).symm

instance (config : Config Key) (root : Nat) (leaf : Leaf Key Rid) :
    Decidable (LeafSized config root leaf) :=
  decidable_of_iff _ (leafSized_iff config root leaf).symm

instance (leaves : List (Leaf Key Rid)) : Decidable (Ranged leaves) :=
  decidable_of_iff _ (ranged_iff leaves).symm

variable [DecidableEq Rid] (config : Config Key) (mtr : Mtr Key Rid) (leaves : List (Leaf Key Rid))
  (base : List (Key × Nat)) (levels : List (List (Inner Key))) (root : Nat)

instance (page : Nat) : Decidable (mtr.Allocated page) :=
  inferInstanceAs (Decidable (_ = true))

instance : Decidable (SepSorted base) := inferInstanceAs (Decidable (List.Pairwise _ _))

instance : Decidable (LevelsStored mtr.bodies mtr.parents levels) :=
  inferInstanceAs (Decidable (∀ level ∈ levels, ∀ inner ∈ level, InnerStored _ _ inner))

instance : Decidable (Upper config mtr base levels root) :=
  decidable_of_iff _ (upper_iff config mtr base levels root).symm

instance : Decidable (Shaped config mtr leaves levels root) :=
  decidable_of_iff _ (shaped_iff config mtr leaves levels root).symm

instance : Decidable (Built config mtr leaves levels root) :=
  decidable_of_iff _ (built_iff config mtr leaves levels root).symm

end Deciding

end CsuDbms.BplusTreeModel
