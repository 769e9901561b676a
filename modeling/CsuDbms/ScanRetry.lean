import CsuDbms.BplusTreeScanner
import CsuDbms.IndexKeys

/-!
# A scan that has to wait

When the latch of the next leaf is taken, `next_entry` has already moved its frame and its
index. The call that the caller repeats goes on from there: the first entries of the next
leaf are passed over.
-/

namespace CsuDbms.BplusTreeModel

open List Option SortedSearch IndexKeys

variable {Key Rid : Type} [OrderedKeys Key]

def Tree.leavesAhead (tree : Tree Key Rid) (right : Option Key) : Nat → Nat → Nat
  | 0, _ => 0
  | fuel + 1, page =>
    match (tree.pages page).nextPage with
    | none => 0
    | some next =>
      match (tree.pages next).keys.head? with
      | none => 0
      | some key => if beyond right key then 0 else 1 + tree.leavesAhead right fuel next

def Tree.leavesToRead (tree : Tree Key Rid) (left right : Option Key) : Nat :=
  match tree.openScanner left right with
  | .ok ⟨some page, _, _, _, _⟩ => tree.leavesAhead right tree.fuel page
  | _ => 0

def readable (right : Option Key) : List (Leaf Key Rid) → Nat
  | [] => 0
  | leaf :: after =>
    if leaf.items.head?.any fun item => !beyond right item.1 then 1 + readable right after else 0

section Walks

variable {wait : Nat → Bool} {right : Option Key} {leaf : Leaf Key Rid}
  {after leaves : List (Leaf Key Rid)}

omit [OrderedKeys Key] in
theorem takeWhile_sublist_filter (keep : Key × Rid → Bool) (items : List (Key × Rid)) :
    (items.takeWhile keep).Sublist (items.filter keep) := by
  induction items with
  | nil => exact .slnil
  | cons item items ih =>
    by_cases kept : keep item = true
    · rw [takeWhile_cons_of_pos kept, filter_cons_of_pos kept]
      exact ih.cons_cons item
    · rw [takeWhile_cons_of_neg kept]
      exact nil_sublist _

theorem walk_sublist (attempts skip : Nat) :
    (walk wait right attempts skip (leaf :: after)).Sublist
      ((leaf.items.drop skip ++ contents after).filter (within right)) := by
  induction after generalizing leaf attempts skip with
  | nil =>
    simp only [walk, contents, flatMap_nil, append_nil, ite_self]
    exact takeWhile_sublist_filter _ _
  | cons next after ih =>
    have here := takeWhile_sublist_filter (within right) (leaf.items.drop skip)
    rw [filter_append, walk]
    split
    · exact here.trans (sublist_append_left _ _)
    · refine here.append ((ih _ _).trans ?_)
      refine List.Sublist.filter _ ?_
      exact (drop_sublist _ _).append (List.Sublist.refl _)

variable {first : Key × Rid} {others : List (Key × Rid)}

theorem walk_through {next : Leaf Key Rid}
    (sorted : ((contents (leaf :: next :: after)).map Prod.fst).Pairwise (· < ·))
    (items : next.items = first :: others) (inside : within right first = true)
    (attempts skip : Nat) :
    walk wait right attempts skip (leaf :: next :: after) = leaf.items.drop skip ++
      walk wait right (attempts + 1) (if wait attempts then max skip leaf.items.length + 1 else 0)
        (next :: after) := by
  have all : (leaf.items.drop skip).takeWhile (within right) = leaf.items.drop skip := by
    rw [takeWhile_eq_self_iff]
    intro item member
    have smaller : item.1 < first.1 := by
      have split : contents (leaf :: next :: after) = leaf.items ++ contents (next :: after) := rfl
      rw [split, map_append] at sorted
      refine (pairwise_append.mp sorted).2.2 item.1 ?_ first.1 ?_
      · exact mem_map_of_mem (mem_of_mem_drop member)
      · simp [contents, items]
    cases right with
    | none => rfl
    | some right =>
      have under : first.1 ≤ right := by simpa [within, beyond] using inside
      simpa [within, beyond] using smaller.le.trans under
  conv_lhs => rw [walk]
  rw [all, if_neg (Nat.lt_irrefl _)]

section

variable (sorted : ((contents (leaf :: after)).map Prod.fst).Pairwise (· < ·))
include sorted

theorem walk_shorter {skip : Nat} (items : leaf.items = first :: others)
    (inside : within right first = true) (attempts again : Nat) (some : 0 < skip) :
    (walk wait right attempts skip (leaf :: after)).length <
      (walk (fun _ => false) right again 0 (leaf :: after)).length := by
  have few : (walk wait right attempts skip (leaf :: after)).length ≤ _ :=
    (walk_sublist attempts skip).length_le
  have sub : ((leaf.items.drop skip ++ contents after).filter (within right)).Sublist
      ((others ++ contents after).filter (within right)) := by
    refine List.Sublist.filter _ (List.Sublist.append ?_ (List.Sublist.refl _))
    obtain ⟨less, rfl⟩ : ∃ less, skip = less + 1 := ⟨skip - 1, by omega⟩
    rw [items, drop_succ_cons]
    exact drop_sublist _ _
  have whole : contents (leaf :: after) = first :: (others ++ contents after) := by
    simp [contents, items]
  rw [walk_unhindered, drop_zero]
  change _ < ((contents (leaf :: after)).takeWhile (within right)).length
  rw [takeWhile_within sorted, whole, filter_cons_of_pos inside, length_cons]
  exact Nat.lt_succ_of_le (few.trans sub.length_le)

theorem walk_none (items : leaf.items = first :: others) (outside : within right first = false)
    (attempts skip : Nat) : walk wait right attempts skip (leaf :: after) = [] := by
  have whole : contents (leaf :: after) = first :: (others ++ contents after) := by
    simp [contents, items]
  have none : (contents (leaf :: after)).filter (within right) = [] := by
    rw [← takeWhile_within sorted, whole, takeWhile_cons_of_neg (by simp [outside])]
  have sub : (leaf.items.drop skip ++ contents after).Sublist (contents (leaf :: after)) :=
    (drop_sublist _ _).append (List.Sublist.refl _)
  have few : (walk wait right attempts skip (leaf :: after)).Sublist _ :=
    (walk_sublist attempts skip).trans (sub.filter (within right))
  rw [none] at few
  exact sublist_nil.mp few

theorem walk_eq_iff (some : ∀ other ∈ after, other.items ≠ []) (attempts skip : Nat) :
    (walk wait right attempts skip (leaf :: after)).map Prod.snd =
        (walk (fun _ => false) right attempts skip (leaf :: after)).map Prod.snd ↔
      ∀ attempt < readable right after, wait (attempts + attempt) = false := by
  induction after generalizing leaf attempts skip with
  | nil => simp [walk, readable]
  | cons next after ih =>
    obtain ⟨first, others, items⟩ :=
      exists_cons_of_ne_nil (some next mem_cons_self)
    have later : ((contents (next :: after)).map Prod.fst).Pairwise (· < ·) := by
      have split : contents (leaf :: next :: after) = leaf.items ++ contents (next :: after) := rfl
      rw [split, map_append] at sorted
      exact (pairwise_append.mp sorted).2.1
    cases inside : within right first with
    | false =>
      have none : readable right (next :: after) = 0 := by
        have outside : beyond right first.1 = true := by simpa [within] using inside
        simp [readable, items, outside]
      have same : walk wait right attempts skip (leaf :: next :: after) =
          walk (fun _ => false) right attempts skip (leaf :: next :: after) := by
        conv_lhs => rw [walk, walk_none later items inside]
        conv_rhs => rw [walk, walk_none later items inside]
      simp [none, same]
    | true =>
      have count : readable right (next :: after) = readable right after + 1 := by
        have inner : beyond right first.1 = false := by simpa [within] using inside
        simp [readable, items, inner, Nat.add_comm]
      rw [walk_through sorted items inside, walk_through sorted items inside, map_append,
        map_append, append_right_inj, count, Nat.forall_lt_succ_left, Nat.add_zero]
      cases waits : wait attempts with
      | true =>
        refine iff_of_false (fun equal => ?_) (by simp)
        have shorter : (walk wait right (attempts + 1) (max skip leaf.items.length + 1)
            (next :: after)).length < _ :=
          walk_shorter later items inside (attempts + 1) (attempts + 1) (by omega)
        have lengths := congrArg length equal
        simp only [length_map, if_true, Bool.false_eq_true, if_false] at lengths
        omega
      | false =>
        rw [if_neg Bool.false_ne_true,
          ih later (fun other member => some other (mem_cons_of_mem _ member))]
        simp only [Nat.add_assoc, Nat.add_comm 1, true_and]

end

end Walks

section Retry

variable {config : Config Key} {tree : Tree Key Rid} {entries : List (Key × Rid)}

theorem Chain.leavesAhead_eq {leaf : Leaf Key Rid} {after : List (Leaf Key Rid)}
    (chain : Chain tree (leaf :: after)) (right : Option Key) {fuel : Nat}
    (enough : after.length < fuel) :
    tree.leavesAhead right fuel leaf.page = readable right after := by
  induction after generalizing leaf fuel with
  | nil =>
    obtain ⟨fuel, rfl⟩ : ∃ less, fuel = less + 1 := ⟨fuel - 1, by omega⟩
    rw [Tree.leavesAhead, chain.nextPage, nextOf, readable]
  | cons next after ih =>
    obtain ⟨fuel, rfl⟩ : ∃ less, fuel = less + 1 := ⟨fuel - 1, by omega⟩
    obtain ⟨first, others, items⟩ :=
      exists_cons_of_ne_nil (chain.tail.some next mem_cons_self)
    have key : (tree.pages next.page).keys.head? = .some first.1 := by
      rw [Node.keys, chain.tail.body, items]
      rfl
    rw [length_cons] at enough
    have later : tree.leavesAhead right fuel next.page = readable right after :=
      ih chain.tail (by omega)
    rw [Tree.leavesAhead, chain.nextPage, nextOf]
    simp only [key, later, readable, items, head?_cons, any_some]
    cases beyond right first.1 <;> rfl

/-- A scan returns what it would return without waiting exactly if none of the latches of the
leaves it moves to and reads from is taken when it is tried. -/
theorem scan_retry_iff (valid : tree.Valid config entries) (left right : Option Key)
    (wait : Nat → Bool) {calls : Nat} (enough : 2 * entries.length < calls) :
    tree.scan wait calls left right = tree.scan (fun _ => false) calls left right ↔
      ∀ attempt < tree.leavesToRead left right, wait attempt = false := by
  rcases valid with ⟨empty, rfl⟩ | ⟨leaves, levels, root, built, rfl⟩
  · have started : tree.openScanner left right = .ok ⟨none, 0, false, right, 0⟩ := by
      rw [Tree.openScanner, empty]
    obtain ⟨calls, rfl⟩ : ∃ more, calls = more + 1 := ⟨calls - 1, by omega⟩
    have none : tree.leavesToRead left right = 0 := by rw [Tree.leavesToRead, started]
    have scans (wait : Nat → Bool) : tree.scan wait (calls + 1) left right = .ok [] := by
      rw [Tree.scan, started]
      exact collect_done tree wait calls 0 right
    simp [none, scans]
  · obtain ⟨index, ahead, starts, started, scans⟩ := built.scan_eq left right
    obtain ⟨before, rfl⟩ := starts.part
    have chain : Chain tree ahead := built.chain_leaves.drop
    have sorted : ((contents ahead).map Prod.fst).Pairwise (· < ·) := by
      have all := built.ranged.contents_sorted
      rw [contents, flatMap_append, map_append] at all
      exact (pairwise_append.mp all).2.1
    rw [scans wait calls enough, scans _ calls enough, Except.ok.injEq, Tree.leavesToRead, started]
    cases ahead with
    | nil => simp [walk, opened]
    | cons leaf after =>
      have inside := starts.inside leaf (by simp)
      have found : leaf.items[index]? = some leaf.items[index] := getElem?_eq_getElem inside
      have rest : leaf.items.drop index = leaf.items[index] :: leaf.items.drop (index + 1) :=
        drop_eq_getElem_cons inside
      cases ends : beyond right leaf.items[index].1 with
      | true => simp [opened, found, within, ends, walk_beyond rest ends]
      | false =>
        have few : after.length < tree.fuel := by
          have most := built.leaves_le
          rw [length_append, length_cons] at most
          rw [Tree.fuel]
          omega
        rw [walk_eq_iff sorted (fun other member => chain.tail.some other member) 0 index]
        simp [opened, found, within, ends, chain.leavesAhead_eq right few]

end Retry

def Tree.insertAll (config : Config Key) (tree : Tree Key Rid) :
    List (Key × Rid) → Option (Tree Key Rid)
  | [] => some tree
  | (key, rid) :: rest =>
    match tree.insertEntry config key rid with
    | .ok changed => changed.commit.insertAll config rest
    | .error _ => none

def numberKey (number : BitVec 32) : IndexKey .ints := toLex (number, toLex (1, number.toInt))

def twoLeafConfig : Config (IndexKey .ints) := ⟨4, 4, toLex ((0 : BitVec 32), toLex (0, 0))⟩

def twoLeafItems : List (IndexKey .ints × Nat) :=
  [(numberKey 1, 10), (numberKey 2, 20), (numberKey 3, 30), (numberKey 4, 40), (numberKey 5, 50)]

def twoLeafTree : Option (Tree (IndexKey .ints) Nat) :=
  Tree.create.insertAll twoLeafConfig twoLeafItems

/-- The latch of the second leaf is taken when it is first tried. Nothing of that leaf is
returned. -/
theorem scan_skips_after_wait :
    (twoLeafTree.bind fun tree => (tree.scan (fun attempt => attempt = 0) 20 none none).toOption) =
        some [10, 20] ∧
      (twoLeafTree.bind fun tree => (tree.scan (fun _ => false) 20 none none).toOption) =
        some [10, 20, 30, 40, 50] := by
  decide +kernel

theorem scan_retry_behind_right :
    ∃ tree, twoLeafTree = some tree ∧
      tree.scan (fun attempt => attempt = 0) 20 none (some (numberKey 2)) =
        tree.scan (fun _ => false) 20 none (some (numberKey 2)) := by
  obtain ⟨tree, grown⟩ : ∃ tree, twoLeafTree = some tree :=
    isSome_iff_exists.mp (by decide +kernel)
  have built : (twoLeafTree.map fun tree => decide (Built twoLeafConfig (Mtr.start tree)
      [⟨twoLeafConfig.zeroKey, 2, twoLeafItems.take 2⟩, ⟨numberKey 3, 3, twoLeafItems.drop 2⟩]
      [[⟨4, (twoLeafConfig.zeroKey, 2), [(numberKey 3, 3)]⟩]] 4)) = some true := by decide +kernel
  rw [grown, map_some, some.injEq, decide_eq_true_eq] at built
  have valid : tree.Valid twoLeafConfig twoLeafItems := .inr ⟨_, _, _, built, rfl⟩
  have ahead : (twoLeafTree.map fun tree => tree.leavesToRead none (some (numberKey 2))) =
      some 0 := by
    decide +kernel
  rw [grown, map_some, some.injEq] at ahead
  refine ⟨tree, grown, (scan_retry_iff valid none (some (numberKey 2)) _ (by decide)).mpr ?_⟩
  intro attempt less
  omega

end CsuDbms.BplusTreeModel
