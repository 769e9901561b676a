import CsuDbms.BplusTreeLeaves

/-!
# Scanning an index

`BplusTreeScanner` on the keys of an index: `open` looks for the first entry that is not
below the left key, and every call of `next_entry` goes on by one entry, along the chain
of leaves, until one is above the right key. The latch of the next leaf is only tried;
`wait` tells at which tries somebody else holds it. A caller repeats the call then.
-/

namespace CsuDbms.BplusTreeModel

open BufferPoolHeaderModel List Option BplusTreeModel.Tree SortedSearch KeyComparator

variable {Key Rid : Type}

/-- `attempts` counts the latches tried so far. -/
structure Scanner (Key : Type) where
  frame : Option Nat
  index : Int
  emitted : Bool
  right : Option Key
  attempts : Nat

inductive Answer (Rid : Type) where
  | entry (rid : Rid)
  | recordEof
  | lockedNeedWait

def Node.itemAt (node : Node Key Rid) (index : Int) : Except RC (Key × Rid) :=
  if 0 ≤ index then
    match node.leafItems[index.toNat]? with
    | some item => .ok item
    | none => .error .internal
  else .error .internal

def Tree.leftMostPage (tree : Tree Key Rid) : Nat → Nat → Except RC Nat
  | 0, _ => .error .internal
  | fuel + 1, page => do
      let node ← tree.getPage page
      match node.body with
      | .leaf _ _ => return page
      | .internal _ =>
        let child ← node.valueAt 0
        leftMostPage tree fuel child

structure Chain (tree : Tree Key Rid) (leaves : List (Leaf Key Rid)) : Prop where
  stored : LeavesStored (fun page => (tree.pages page).body) leaves none
  allocated : ∀ leaf ∈ leaves, tree.getPage leaf.page = .ok (tree.pages leaf.page)
  some : ∀ leaf ∈ leaves, leaf.items ≠ []

variable {tree : Tree Key Rid} {leaf : Leaf Key Rid} {leaves after : List (Leaf Key Rid)}

section

variable (chain : Chain tree (leaf :: after))
include chain

theorem Chain.tail : Chain tree after where
  stored := chain.stored.2
  allocated other member := chain.allocated other (mem_cons_of_mem _ member)
  some other member := chain.some other (mem_cons_of_mem _ member)

theorem Chain.body :
    (tree.pages leaf.page).body = .leaf (nextOf after none) leaf.items := chain.stored.1

theorem Chain.size :
    (tree.pages leaf.page).size = leaf.items.length := by
  rw [Node.size, Node.keys, chain.body, length_map]

theorem Chain.nextPage :
    (tree.pages leaf.page).nextPage = nextOf after none := by
  rw [Node.nextPage, chain.body]

end

theorem Chain.drop {before after : List (Leaf Key Rid)} (chain : Chain tree (before ++ after)) :
    Chain tree after := by
  induction before with
  | nil => exact chain
  | cons leaf before ih => exact ih chain.tail

theorem Chain.calls_le (chain : Chain tree leaves) :
    (leaves.map fun leaf => leaf.items.length + 1).sum ≤ 2 * (contents leaves).length := by
  induction leaves with
  | nil => simp
  | cons leaf leaves ih =>
    have more := ih chain.tail
    have some := length_pos_of_ne_nil (chain.some leaf mem_cons_self)
    simp only [contents, map_cons, sum_cons, flatMap_cons,
      length_append] at more ⊢
    omega

variable {skip : Nat} {item : Key × Rid} {more : List (Key × Rid)}

theorem Chain.itemAt (chain : Chain tree (leaf :: after))
    (rest : leaf.items.drop skip = item :: more) :
    (tree.pages leaf.page).itemAt skip = .ok item := by
  have found : leaf.items[skip]? = .some item := by
    rw [← head?_drop, rest, head?_cons]
  simp [Node.itemAt, Node.leafItems, chain.body, found]

theorem lt_of_drop_cons {items : List (Key × Rid)}
    (rest : items.drop skip = item :: more) : skip < items.length := by
  by_contra outside
  rw [drop_eq_nil_of_le (Nat.not_lt.mp outside)] at rest
  cases rest

section Scanning

variable [KeyComparator Key]

def beyond (right : Option Key) (key : Key) : Bool :=
  match right with
  | none => false
  | some right => 0 < compareKeys key right

namespace Tree

def touchEnd (tree : Tree Key Rid) (right : Option Key) (page : Nat) (index : Int) :
    Except RC Bool :=
  match right with
  | none => .ok false
  | some _ => ((tree.pages page).itemAt index).map fun item => beyond right item.1

/-- The part of `open` that finds the first entry: its page and its place there. -/
def scanStart (tree : Tree Key Rid) (root : Nat) : Option Key → Except RC (Option (Nat × Nat))
  | none => (tree.leftMostPage tree.fuel root).map fun page => some (page, 0)
  | some key => do
      let path ← tree.findLeaf key tree.fuel root
      match path with
      | [] => .error .internal
      | leaf :: _ =>
        let index := (leafLookup (tree.pages leaf).leafItems key).1
        if (tree.pages leaf).size ≤ index then
          match (tree.pages leaf).nextPage with
          | none => .ok none
          | some next => (tree.getPage next).map fun _ => some (next, 0)
        else .ok (some (leaf, index))

def openScanner (tree : Tree Key Rid) (left right : Option Key) : Except RC (Scanner Key) :=
  match tree.root with
  | none => .ok ⟨none, 0, false, right, 0⟩
  | some root => do
      match ← tree.scanStart root left with
      | none => return ⟨none, 0, false, right, 0⟩
      | some (page, index) =>
        if ← tree.touchEnd right page index then return ⟨none, index, false, right, 0⟩
        else return ⟨some page, index, false, right, 0⟩

/-- `next_entry`. The frame is already that of the next leaf when its latch is tried. -/
def nextEntry (tree : Tree Key Rid) (wait : Nat → Bool) :
    Nat → Scanner Key → Except RC (Answer Rid × Scanner Key)
  | 0, _ => .error .internal
  | fuel + 1, scanner =>
    match scanner.frame with
    | none => .ok (.recordEof, scanner)
    | some page =>
      if scanner.emitted then
        let moved := { scanner with index := scanner.index + 1 }
        if moved.index < ((tree.pages page).size : Int) then do
          if ← tree.touchEnd scanner.right page moved.index then return (.recordEof, moved)
          let item ← (tree.pages page).itemAt moved.index
          return (.entry item.2, moved)
        else
          match (tree.pages page).nextPage with
          | none => .ok (.recordEof, moved)
          | some next => do
              let _ ← tree.getPage next
              let tried := { moved with frame := some next, attempts := moved.attempts + 1 }
              if wait scanner.attempts then return (.lockedNeedWait, tried)
              else nextEntry tree wait fuel { tried with index := -1 }
      else do
        let item ← (tree.pages page).itemAt scanner.index
        return (.entry item.2, { scanner with emitted := true })

def collect (tree : Tree Key Rid) (wait : Nat → Bool) : Nat → Scanner Key → Except RC (List Rid)
  | 0, _ => .error .internal
  | calls + 1, scanner => do
      match ← tree.nextEntry wait tree.fuel scanner with
      | (.entry rid, next) => return rid :: (← collect tree wait calls next)
      | (.lockedNeedWait, next) => collect tree wait calls next
      | (.recordEof, _) => return []

def scan (tree : Tree Key Rid) (wait : Nat → Bool) (calls : Nat) (left right : Option Key) :
    Except RC (List Rid) := do
  collect tree wait calls (← tree.openScanner left right)

end Tree

end Scanning

variable [OrderedKeys Key]

theorem Chain.touchEnd (chain : Chain tree (leaf :: after))
    (rest : leaf.items.drop skip = item :: more) (right : Option Key) :
    tree.touchEnd right leaf.page skip = .ok (beyond right item.1) := by
  cases right with
  | none => rfl
  | some right => rw [Tree.touchEnd, chain.itemAt rest, Except.map]

variable {wait : Nat → Bool} {right : Option Key}

def Leaf.reading (leaf : Leaf Key Rid) (skip : Nat) (right : Option Key) (attempts : Nat) :
    Scanner Key := ⟨some leaf.page, (skip : Int) - 1, true, right, attempts⟩

theorem Chain.nextEntry_item (chain : Chain tree (leaf :: after))
    (rest : leaf.items.drop skip = item :: more) (attempts fuel : Nat) :
    tree.nextEntry wait (fuel + 1) (leaf.reading skip right attempts) =
      .ok (if beyond right item.1 then .recordEof else .entry item.2,
        leaf.reading (skip + 1) right attempts) := by
  have inside := lt_of_drop_cons rest
  have index : ((skip : Int) - 1 + 1) = skip := by omega
  have next : ((skip + 1 : Nat) : Int) - 1 = skip := by omega
  have small : (skip : Int) < ((tree.pages leaf.page).size : Int) := by
    rw [chain.size]
    omega
  simp only [nextEntry, Leaf.reading, index, next, if_true, if_pos small,
    chain.touchEnd rest, chain.itemAt rest, bind, Except.bind, pure, Except.pure]
  split <;> rfl

theorem Chain.nextEntry_end (chain : Chain tree (leaf :: after))
    (rest : leaf.items.length ≤ skip) (attempts fuel : Nat) :
    tree.nextEntry wait (fuel + 1) (leaf.reading skip right attempts) =
      match after with
      | [] => .ok (.recordEof, leaf.reading (skip + 1) right attempts)
      | next :: _ =>
        if wait attempts then .ok (.lockedNeedWait, next.reading (skip + 1) right (attempts + 1))
        else tree.nextEntry wait fuel (next.reading 0 right (attempts + 1)) := by
  have index : ((skip : Int) - 1 + 1) = skip := by omega
  have later : ((skip + 1 : Nat) : Int) - 1 = skip := by omega
  have start : ((0 : Nat) : Int) - 1 = -1 := by omega
  have large : ¬(skip : Int) < ((tree.pages leaf.page).size : Int) := by
    rw [chain.size]
    omega
  cases after with
  | nil =>
    simp only [nextEntry, Leaf.reading, index, later, if_true, if_neg large, chain.nextPage, nextOf]
  | cons next after =>
    simp only [nextEntry, Leaf.reading, index, later, start, if_true, if_neg large, chain.nextPage,
      nextOf, chain.allocated next (by simp), bind, Except.bind, pure, Except.pure]

def within (right : Option Key) (item : Key × Rid) : Bool := !beyond right item.1

/-- The items a scan hands out that has read `skip` items of the first leaf. After a failed try
it passes over as many items of the next leaf, and one more. -/
def walk (wait : Nat → Bool) (right : Option Key) :
    Nat → Nat → List (Leaf Key Rid) → List (Key × Rid)
  | _, _, [] => []
  | attempts, skip, leaf :: after =>
    let rest := leaf.items.drop skip
    let taken := rest.takeWhile (within right)
    if taken.length < rest.length then taken
    else taken ++ walk wait right (attempts + 1)
      (if wait attempts then max skip leaf.items.length + 1 else 0) after

theorem walk_beyond (rest : leaf.items.drop skip = item :: more) (ends : beyond right item.1 = true)
    (attempts : Nat) : walk wait right attempts skip (leaf :: after) = [] := by
  simp [walk, rest, within, ends]

theorem walk_item
    (rest : leaf.items.drop skip = item :: more) (inside : beyond right item.1 = false)
    (attempts : Nat) : walk wait right attempts skip (leaf :: after) =
      item :: walk wait right attempts (skip + 1) (leaf :: after) := by
  have bound := lt_of_drop_cons rest
  have later : leaf.items.drop (skip + 1) = more := by
    rw [← tail_drop, rest, tail_cons]
  have most : max skip leaf.items.length = max (skip + 1) leaf.items.length := by omega
  simp only [walk, rest, later, takeWhile_cons, within, inside, Bool.not_false, if_true,
    length_cons, Nat.add_lt_add_iff_right, most]
  split <;> rfl

theorem walk_end (rest : leaf.items.length ≤ skip) (attempts : Nat) :
    walk wait right attempts skip (leaf :: after) =
      walk wait right (attempts + 1) (if wait attempts then skip + 1 else 0) after := by
  have most : max skip leaf.items.length = skip := by omega
  simp [walk, drop_eq_nil_of_le rest, most]

theorem takeWhile_within {items : List (Key × Rid)}
    (sorted : (items.map Prod.fst).Pairwise (· < ·)) :
    items.takeWhile (within right) = items.filter (within right) := by
  induction items with
  | nil => rfl
  | cons item items ih =>
    have order := pairwise_cons.mp sorted
    cases ends : within right item with
    | true => rw [takeWhile_cons_of_pos ends, filter_cons_of_pos ends, ih order.2]
    | false =>
      have none : items.filter (within right) = [] := by
        rw [filter_eq_nil_iff]
        intro other member
        have larger := order.1 other.1 (mem_map_of_mem member)
        cases right with
        | none => cases ends
        | some right =>
          have passed : right < item.1 := by simpa [within, beyond] using ends
          simpa [within, beyond] using passed.trans larger
      rw [takeWhile_cons_of_neg (by simp [ends]), filter_cons_of_neg (by simp [ends]),
        none]

theorem walk_unhindered (attempts : Nat) :
    walk (fun _ => false) right attempts skip (leaf :: after) =
      (leaf.items.drop skip ++ contents after).takeWhile (within right) := by
  induction after generalizing leaf attempts skip with
  | nil => simp [walk, contents]
  | cons next after ih =>
    have next := @ih next 0 (attempts + 1)
    rw [drop_zero] at next
    rw [walk, takeWhile_append]
    have most : ((leaf.items.drop skip).takeWhile (within right)).length ≤
        (leaf.items.drop skip).length := (takeWhile_sublist _).length_le
    split
    · rw [if_neg (by omega)]
    · have whole : (leaf.items.drop skip).takeWhile (within right) = leaf.items.drop skip :=
        (takeWhile_sublist _).eq_of_length (by omega)
      rw [whole, if_neg Bool.false_ne_true, if_pos rfl, next]
      rfl

section Calls

variable {scanner next : Scanner Key}

theorem collect_entry {rid : Rid} (answer : tree.nextEntry wait tree.fuel scanner =
    .ok (.entry rid, next)) (calls : Nat) :
    tree.collect wait (calls + 1) scanner = (tree.collect wait calls next).map (rid :: ·) := by
  simp only [collect, answer, bind, Except.bind]
  cases tree.collect wait calls next <;> rfl

theorem collect_wait (answer : tree.nextEntry wait tree.fuel scanner =
    .ok (.lockedNeedWait, next)) (calls : Nat) :
    tree.collect wait (calls + 1) scanner = tree.collect wait calls next := by
  rw [collect, answer]
  rfl

theorem collect_eof (answer : tree.nextEntry wait tree.fuel scanner = .ok (.recordEof, next))
    (calls : Nat) : tree.collect wait (calls + 1) scanner = .ok [] := by
  rw [collect, answer]
  rfl

end Calls

def callsLeft (skip : Nat) (leaf : Leaf Key Rid) (after : List (Leaf Key Rid)) : Nat :=
  leaf.items.length - skip + (after.map fun other => other.items.length + 1).sum

theorem Chain.collect_item {scanner : Scanner Key} {calls attempts fuel : Nat}
    (chain : Chain tree (leaf :: after))
    (rest : leaf.items.drop skip = item :: more)
    (same : tree.nextEntry wait tree.fuel scanner =
      tree.nextEntry wait (fuel + 1) (leaf.reading skip right attempts))
    (later : tree.collect wait calls (leaf.reading (skip + 1) right attempts) =
      .ok ((walk wait right attempts (skip + 1) (leaf :: after)).map Prod.snd)) :
    tree.collect wait (calls + 1) scanner =
      .ok ((walk wait right attempts skip (leaf :: after)).map Prod.snd) := by
  rw [chain.nextEntry_item rest] at same
  cases ends : beyond right item.1 with
  | true =>
    rw [ends] at same
    rw [collect_eof same, walk_beyond rest ends]
    rfl
  | false =>
    rw [ends] at same
    rw [collect_entry same, later, walk_item rest ends]
    rfl

theorem Chain.collect_eq (calls : Nat) {attempts : Nat}
    (chain : Chain tree (leaf :: after)) (paged : 0 < tree.header.pageCount)
    (enough : callsLeft skip leaf after < calls) :
    tree.collect wait calls (leaf.reading skip right attempts) =
      .ok ((walk wait right attempts skip (leaf :: after)).map Prod.snd) := by
  obtain ⟨fuel, deep⟩ : ∃ fuel, tree.fuel = fuel + 2 :=
    ⟨tree.header.pageCount - 1, by rw [fuel]; omega⟩
  unfold callsLeft at enough
  induction calls generalizing leaf after skip attempts with
  | zero => omega
  | succ calls ih =>
    cases rest : leaf.items.drop skip with
    | cons item more =>
      have inside := lt_of_drop_cons rest
      have later := @ih leaf after (skip + 1) attempts chain (by omega)
      exact chain.collect_item rest (by rw [deep]) later
    | nil =>
      have whole : leaf.items.length ≤ skip := drop_eq_nil_iff.mp rest
      rw [walk_end whole]
      cases after with
      | nil =>
        have last : tree.nextEntry wait (fuel + 2) (leaf.reading skip right attempts) = _ :=
          chain.nextEntry_end whole attempts (fuel + 1)
        rw [← deep] at last
        rw [collect_eof last, walk]
        rfl
      | cons next after =>
        rw [map_cons, sum_cons] at enough
        have moved : tree.nextEntry wait (fuel + 2) (leaf.reading skip right attempts) = _ :=
          chain.nextEntry_end whole attempts (fuel + 1)
        rw [← deep] at moved
        dsimp only at moved
        cases waits : wait attempts with
        | true =>
          have later := @ih next after (skip + 1) (attempts + 1) chain.tail (by omega)
          rw [waits, if_pos rfl] at moved
          rw [collect_wait moved, later, if_pos rfl]
        | false =>
          rw [waits, if_neg Bool.false_ne_true] at moved
          rw [if_neg Bool.false_ne_true]
          obtain ⟨first, others, items⟩ :=
            exists_cons_of_ne_nil (chain.tail.some next mem_cons_self)
          have later := @ih next after 1 (attempts + 1) chain.tail (by omega)
          exact chain.tail.collect_item items moved later

variable {config : Config Key} {levels : List (List (Inner Key))} {root : Nat}

theorem leftmost {mtr : Mtr Key Rid} {base : List (Key × Nat)}
    (upper : Upper config mtr base levels root) :
    ∃ entry after, base = entry :: after ∧
      ∀ fuel, mtr.tree.leftMostPage (fuel + levels.length) root =
        mtr.tree.leftMostPage fuel entry.2 := by
  induction levels generalizing base with
  | nil => exact ⟨(config.zeroKey, root), [], upper.tower, fun fuel => rfl⟩
  | cons level higher ih =>
    obtain ⟨entry, after, row, goes⟩ := ih upper.above
    obtain ⟨inner, rest, rfl, rfl, rfl⟩ := map_eq_cons_iff.mp row
    have stored := (levelsStored_cons.mp upper.stored).1 inner (by simp)
    have allocated : mtr.Allocated inner.page :=
      upper.allocated _ (mem_append_right _ (by simp [pagesOf]))
    refine ⟨inner.first, inner.rest ++ rest.flatMap Inner.items, ?_, fun fuel => ?_⟩
    · rw [← upper.tower.1, flatMap_cons]
      rfl
    · have page : mtr.tree.getPage inner.page = .ok (mtr.node inner.page) := if_pos allocated
      have body : (mtr.node inner.page).body = .internal inner.items := stored.body
      have child : (mtr.node inner.page).valueAt 0 = .ok inner.first.2 := by
        rw [Node.valueAt, Node.childItems, body]
        rfl
      have longer : fuel + (higher.length + 1) = (fuel + 1) + higher.length := by omega
      rw [length_cons, longer, goes (fuel + 1)]
      change mtr.tree.leftMostPage (fuel + 1) inner.page = _
      simp only [leftMostPage, page, bind, Except.bind, body, child]

theorem Ranged.contents_sorted (ranged : Ranged leaves) :
    ((contents leaves).map Prod.fst).Pairwise (· < ·) := by
  rw [keys_contents, pairwise_flatMap]
  refine ⟨ranged.sorted, ?_⟩
  cases leaves with
  | nil => exact .nil
  | cons first rest =>
    obtain ⟨under, below⟩ := pairwise_cons.mp ranged.below
    refine pairwise_cons.mpr ⟨?_, below.imp_of_mem ?_⟩
    · intro later member key held other above
      exact (under later member key held).trans_le (ranged.above later member other above)
    · intro _ later _ member under key held other above
      exact (under key held).trans_le (ranged.above later member other above)

theorem Built.chain_leaves (built : Built config (Mtr.start tree) leaves levels root) :
    Chain tree leaves where
  stored := built.stored
  allocated _ member :=
    if_pos (built.upper.allocated _ (mem_append_left _ (mem_leafPages member)))
  some leaf member := ne_nil_of_length_pos (built.leafSized leaf member).some

def notBelow (left : Option Key) (key : Key) : Bool :=
  match left with
  | none => true
  | some left => left ≤ key

structure StartsAt (leaves : List (Leaf Key Rid)) (left : Option Key) (index : Nat)
    (ahead : List (Leaf Key Rid)) : Prop where
  part : ahead <:+ leaves
  inside : ∀ leaf ∈ ahead.head?, index < leaf.items.length
  rest : (contents leaves).filter (fun item => notBelow left item.1) = (contents ahead).drop index

theorem filter_notBelow {key : Key} {low high : List (Key × Rid)}
    (below : ∀ item ∈ low, item.1 < key) (above : ∀ item ∈ high, key ≤ item.1) :
    (low ++ high).filter (fun item => notBelow (some key) item.1) = high := by
  rw [filter_append, filter_eq_nil_iff.mpr, nil_append, filter_eq_self.mpr]
  · exact fun item member => decide_eq_true (above item member)
  · intro item member
    simpa [notBelow] using below item member

theorem Ranged.around {before after : List (Leaf Key Rid)} {leaf : Leaf Key Rid} {key : Key}
    (ranged : Ranged (before ++ leaf :: after)) (range : InRange before leaf after key) :
    (∀ item ∈ contents before, item.1 < key) ∧ ∀ item ∈ contents after, key ≤ item.1 := by
  constructor
  · intro item member
    obtain ⟨other, inside, held⟩ := mem_flatMap.mp member
    have under := (pairwise_append.mp ranged.below).2.2 other inside leaf mem_cons_self
      item.1 (mem_map_of_mem held)
    exact under.trans_le (range.1 (ne_nil_of_mem inside))
  · intro item member
    obtain ⟨other, inside, held⟩ := mem_flatMap.mp member
    have least : other.sep ≤ item.1 := by
      refine ranged.above other ?_ item.1 (mem_map_of_mem held)
      cases before with
      | nil => exact inside
      | cons first before => exact mem_append_right _ (mem_cons_of_mem _ inside)
    exact ((range.2 other inside).trans_le least).le

theorem Built.scanStart_none (built : Built config (Mtr.start tree) leaves levels root) :
    ∃ index ahead, tree.scanStart root none =
        .ok (ahead.head?.map fun leaf => (leaf.page, index)) ∧
      StartsAt leaves none index ahead := by
  obtain ⟨entry, rest, row, goes⟩ := leftmost built.upper
  obtain ⟨leaf, after, rfl, rfl, _⟩ := map_eq_cons_iff.mp row
  have chain := built.chain_leaves
  have height : levels.length ≤ tree.header.pageCount := built.upper.height
  have fuel : tree.fuel = tree.header.pageCount - levels.length + 1 + levels.length := by
    rw [fuel]
    omega
  refine ⟨0, leaf :: after, ?_, suffix_refl _, ?_, ?_⟩
  · have found : tree.leftMostPage tree.fuel root = .ok leaf.page := by
      rw [fuel]
      refine (goes _).trans ?_
      change tree.leftMostPage (_ + 1) leaf.page = _
      simp [leftMostPage, chain.allocated leaf, chain.body, bind, Except.bind, pure,
        Except.pure]
    rw [scanStart, found, Except.map]
    rfl
  · simpa using length_pos_of_ne_nil (chain.some leaf mem_cons_self)
  · simp [notBelow]

theorem Built.scanStart_some (built : Built config (Mtr.start tree) leaves levels root)
    (key : Key) :
    ∃ index ahead, tree.scanStart root (some key) =
        .ok (ahead.head?.map fun leaf => (leaf.page, index)) ∧
      StartsAt leaves (some key) index ahead := by
  obtain ⟨before, leaf, after, path, rfl, range, found⟩ := built.find key
  have found : tree.findLeaf key tree.fuel root = .ok (leaf.page :: path) := found
  obtain ⟨front, back, items, below, above, lookup⟩ :=
    leafLookup_cut key (built.ranged.sorted leaf (by simp))
  obtain ⟨earlier, later⟩ := built.ranged.around range
  have chain : Chain tree (leaf :: after) := built.chain_leaves.drop
  have stored : (tree.pages leaf.page).leafItems = leaf.items := by
    rw [Node.leafItems, chain.body]
  have whole : contents (before ++ leaf :: after) =
      (contents before ++ front) ++ (back ++ contents after) := by
    simp [contents, items]
  have rest : (contents (before ++ leaf :: after)).filter
      (fun item => notBelow (some key) item.1) = back ++ contents after := by
    rw [whole]
    refine filter_notBelow (fun item member => ?_) fun item member => ?_
    · rcases mem_append.mp member with first | second
      · exact earlier item first
      · exact below item.1 (mem_map_of_mem second)
    · rcases mem_append.mp member with first | second
      · exact above item.1 (mem_map_of_mem first)
      · exact later item second
  simp only [scanStart, found, bind, Except.bind, stored, lookup, chain.size, chain.nextPage]
  cases back with
  | cons item back =>
    refine ⟨front.length, leaf :: after, ?_, suffix_append _ _, ?_, ?_⟩
    · rw [if_neg (by simp [items])]
      rfl
    · simp [items]
    · rw [rest]
      simp [contents, items]
  | nil =>
    have size : leaf.items.length ≤ front.length := by simp [items]
    rw [if_pos size]
    cases after with
    | nil => exact ⟨0, [], rfl, nil_suffix, by simp, by simpa [contents] using rest⟩
    | cons next after =>
      refine ⟨0, next :: after, ?_, ?_, ?_, ?_⟩
      · simp [nextOf, chain.allocated next (by simp), Except.map]
      · exact (suffix_cons leaf _).trans (suffix_append _ _)
      · simpa using length_pos_of_ne_nil (chain.tail.some next mem_cons_self)
      · simpa using rest

theorem collect_done (tree : Tree Key Rid) (wait : Nat → Bool) (calls : Nat) (index : Int)
    (right : Option Key) :
    tree.collect wait (calls + 1) ⟨none, index, false, right, 0⟩ = .ok [] := by
  have ended : tree.nextEntry wait tree.fuel ⟨none, index, false, right, 0⟩ =
      .ok (.recordEof, ⟨none, index, false, right, 0⟩) := by
    rw [fuel, nextEntry]
  exact collect_eof ended calls

def opened (right : Option Key) (index : Nat) : List (Leaf Key Rid) → Scanner Key
  | [] => ⟨none, 0, false, right, 0⟩
  | leaf :: _ =>
    ⟨if leaf.items[index]?.any (within right) then some leaf.page else none, index, false, right, 0⟩

theorem Built.openScanner_eq (built : Built config (Mtr.start tree) leaves levels root)
    (left right : Option Key) :
    ∃ index ahead, StartsAt leaves left index ahead ∧
      tree.openScanner left right = .ok (opened right index ahead) := by
  obtain ⟨index, ahead, started, starts⟩ : ∃ index ahead, tree.scanStart root left =
      .ok (ahead.head?.map fun leaf => (leaf.page, index)) ∧ StartsAt leaves left index ahead := by
    cases left with
    | none => exact built.scanStart_none
    | some key => exact built.scanStart_some key
  refine ⟨index, ahead, starts, ?_⟩
  have root : tree.root = some root := built.upper.root
  obtain ⟨before, rfl⟩ := starts.part
  have chain : Chain tree ahead := built.chain_leaves.drop
  cases ahead with
  | nil => simp [openScanner, root, started, opened, bind, Except.bind, pure, Except.pure]
  | cons leaf after =>
    have inside := starts.inside leaf (by simp)
    obtain ⟨item, more, rest⟩ : ∃ item more, leaf.items.drop index = item :: more :=
      exists_cons_of_ne_nil (by simpa using inside)
    have found : leaf.items[index]? = some item := by
      rw [← head?_drop, rest, head?_cons]
    simp only [openScanner, root, started, head?_cons, map_some, bind,
      Except.bind, chain.touchEnd rest, pure, Except.pure, opened, found, any_some, within]
    cases beyond right item.1 <;> rfl

theorem Chain.collect_opened {ahead : List (Leaf Key Rid)} (chain : Chain tree ahead)
    (paged : 0 < tree.header.pageCount) {index calls : Nat}
    (inside : ∀ leaf ∈ ahead.head?, index < leaf.items.length)
    (enough : 2 * (contents ahead).length < calls) (wait : Nat → Bool) (right : Option Key) :
    tree.collect wait calls (opened right index ahead) =
      .ok ((walk wait right 0 index ahead).map Prod.snd) := by
  obtain ⟨calls, rfl⟩ : ∃ more, calls = more + 1 := ⟨calls - 1, by omega⟩
  cases ahead with
  | nil => exact collect_done tree wait calls 0 right
  | cons leaf after =>
    have inside := inside leaf (by simp)
    obtain ⟨item, more, rest⟩ : ∃ item more, leaf.items.drop index = item :: more :=
      exists_cons_of_ne_nil (by simpa using inside)
    have found : leaf.items[index]? = .some item := by
      rw [← head?_drop, rest, head?_cons]
    rw [opened, found, any_some, within]
    cases ends : beyond right item.1 with
    | true =>
      rw [walk_beyond rest ends]
      exact collect_done tree wait calls index right
    | false =>
      have few := chain.calls_le
      have later : tree.collect wait calls (leaf.reading (index + 1) right 0) = _ :=
        chain.collect_eq calls paged (by
          unfold callsLeft
          simp only [map_cons, sum_cons] at few
          omega)
      have first : tree.nextEntry wait tree.fuel
          ⟨.some leaf.page, index, false, right, 0⟩ =
          .ok (.entry item.2, leaf.reading (index + 1) right 0) := by
        simp [fuel, nextEntry, chain.itemAt rest, bind, Except.bind, pure,
          Except.pure, Leaf.reading]
      rw [walk_item rest ends]
      refine (collect_entry first calls).trans ?_
      rw [later]
      rfl

theorem Built.leaves_le (built : Built config (Mtr.start tree) leaves levels root) :
    leaves.length ≤ tree.header.pageCount := by
  have distinct := (nodup_append'.mp built.upper.distinct).1
  have inside : (leaves.map Leaf.entry).map Prod.snd ⊆ range tree.header.pageCount := by
    intro page member
    have allocated := built.upper.allocated page (mem_append_left _ member)
    exact mem_range.mpr ((BPFileHeader.checkPageNum_natCast _ _).mp allocated).1
  have few := (subperm_of_subset distinct inside).length_le
  rwa [length_range, length_map, length_map] at few

theorem Built.scan_eq (built : Built config (Mtr.start tree) leaves levels root)
    (left right : Option Key) :
    ∃ index ahead, StartsAt leaves left index ahead ∧
      tree.openScanner left right = .ok (opened right index ahead) ∧
      ∀ wait calls, 2 * (contents leaves).length < calls →
        tree.scan wait calls left right =
          .ok ((walk wait right 0 index ahead).map Prod.snd) := by
  obtain ⟨index, ahead, starts, started⟩ := built.openScanner_eq left right
  refine ⟨index, ahead, starts, started, fun wait calls enough => ?_⟩
  have some : 0 < tree.header.pageCount := by
    have bound := ((BPFileHeader.checkPageNum_natCast _ _).mp
      (built.upper.allocated root built.upper.root_mem)).1
    exact Nat.lt_of_le_of_lt (Nat.zero_le _) bound
  obtain ⟨before, rfl⟩ := starts.part
  have chain : Chain tree ahead := built.chain_leaves.drop
  have fewer : 2 * (contents ahead).length < calls := by
    rw [contents, flatMap_append, length_append] at enough
    rw [contents]
    omega
  rw [scan, started]
  exact chain.collect_opened some starts.inside fewer wait right

theorem scan_filter {entries : List (Key × Rid)} (valid : tree.Valid config entries)
    (left right : Option Key) {calls : Nat} (enough : 2 * entries.length < calls) :
    tree.scan (fun _ => false) calls left right = .ok ((entries.filter fun item =>
      within right item && notBelow left item.1).map Prod.snd) := by
  rcases valid with ⟨empty, rfl⟩ | ⟨leaves, levels, root, built, rfl⟩
  · obtain ⟨calls, rfl⟩ : ∃ more, calls = more + 1 := ⟨calls - 1, by omega⟩
    rw [scan, openScanner, empty]
    exact collect_done tree (fun _ => false) calls 0 right
  · obtain ⟨index, ahead, starts, _, scans⟩ := built.scan_eq left right
    have sorted := built.ranged.contents_sorted
    have part : ((contents ahead).drop index).Sublist (contents leaves) := by
      rw [← starts.rest]
      exact List.filter_sublist
    rw [scans _ calls enough, ← List.filter_filter, starts.rest,
      ← takeWhile_within (sorted.sublist (part.map Prod.fst))]
    cases ahead with
    | nil => simp [walk, contents]
    | cons leaf after =>
      have inside := starts.inside leaf (by simp)
      have split : (contents (leaf :: after)).drop index =
          leaf.items.drop index ++ contents after := drop_append_of_le_length inside.le
      rw [walk_unhindered, split]

end CsuDbms.BplusTreeModel
