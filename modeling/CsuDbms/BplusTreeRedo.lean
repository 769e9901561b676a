import CsuDbms.BplusTreeModel
import CsuDbms.IndexKeys
import CsuDbms.RedoLog

/-!
# Redo of the calls on an index

`BplusTreeLogger::commit` writes the operations of a call as one log entry, whose number the
changed pages get. After a crash each page is on disk as it was after some call, and `__redo`
makes the operations again on the pages with a smaller number. It does not mark these pages dirty;
what is shown here is their state in memory.
-/

namespace CsuDbms.BplusTreeModel

open RedoLog SortedSearch List Function

section Results

variable {ε α β : Type} {P : α → Prop} {Q : β → Prop}

/-- What holds of the result of a call that does not fail. -/
def Returns (P : α → Prop) (result : Except ε α) : Prop := ∀ value, result = .ok value → P value

theorem returns_ok {value : α} (holds : P value) : Returns P (.ok value : Except ε α) := by
  rintro _ ⟨⟩
  exact holds

variable {first : Except ε α} {rest : α → Except ε β}

theorem returns_bind (returns : Returns P first)
    (continues : ∀ value, P value → Returns Q (rest value)) : Returns Q (first >>= rest) := by
  cases first with
  | error => exact nofun
  | ok value => exact continues value (returns value rfl)

theorem returns_read (continues : ∀ value, Returns Q (rest value)) : Returns Q (first >>= rest) :=
  returns_bind (P := fun _ => True) (fun _ _ => trivial) fun value _ => continues value

end Results

variable {Key Rid : Type}

/-- `FIRST_INDEX_PAGE`, which holds the root page number. -/
def firstIndexPage : Nat := 1

def Operation.page : Operation Key Rid → Nat
  | .updateRootPage _ => firstIndexPage
  | .node page _ => page

/-- The node of a page and, for the first one, the root that it names. -/
def Tree.content (tree : Tree Key Rid) (page : Nat) : Node Key Rid × Option Nat :=
  (tree.pages page, if page = firstIndexPage then tree.root else none)

/-- The pages of an index with the numbers of the log entries that changed them last. -/
structure Index (Key Rid : Type) where
  tree : Tree Key Rid
  lsn : Nat → Int

namespace Index

variable (config : Config Key) (index : Index Key Rid) (lsn : Int)

def image (page : Nat) : (Node Key Rid × Option Nat) × Int :=
  (index.tree.content page, index.lsn page)

def apply (operations : List (Operation Key Rid)) : Index Key Rid where
  tree := operations.foldl (Operation.apply config) index.tree
  lsn page := if page ∈ operations.map Operation.page then lsn else index.lsn page

/-- `__redo`: the loop ends at the first page that cannot be fetched, and no page gets the number
of the entry then. -/
def redo (fetches : Int → Nat → Bool) (index : Index Key Rid)
    (entry : Int × List (Operation Key Rid)) : Index Key Rid :=
  let reached := entry.2.takeWhile (fetches entry.1 ·.page)
  -- numbers are set at the end, so an operation hides no later one on its page
  let redone := index.apply config entry.1 (reached.filter (index.lsn ·.page < entry.1))
  if reached.length < entry.2.length then { redone with lsn := index.lsn } else redone

end Index

/-- A call that succeeds; `commit` gives the pages of its operations the number of the entry. -/
def Writes [KeyComparator Key] (config : Config Key) (index : Index Key Rid) (lsn : Int)
    (operations : List (Operation Key Rid)) (next : Index Key Rid) : Prop :=
  ∃ mtr, ((∃ key rid, index.tree.insertEntry config key rid = .ok mtr) ∨
      ∃ key, index.tree.deleteEntry config key = .ok mtr) ∧
    operations = mtr.operations ∧ next = ⟨mtr.commit, (index.apply config lsn operations).lsn⟩

variable {config : Config Key} {tree : Tree Key Rid}

/-- Redoing the operations turns the pages from before the mini-transaction into its own. -/
def Redoes (config : Config Key) (tree : Tree Key Rid) (mtr : Mtr Key Rid) : Prop :=
  mtr.operations.foldl (Operation.apply config) tree = { mtr.tree with header := tree.header }

namespace Redoes

variable {mtr : Mtr Key Rid} {kind : NodeKind} {page other parent index num position fuel : Nat}
  {key : Key} {rid : Rid} (redoes : Redoes config tree mtr)
include redoes

theorem log {operation : Operation Key Rid} : Redoes config tree (mtr.log config operation) := by
  rw [Redoes, Mtr.log, foldl_append, redoes]
  cases operation <;> rfl

theorem change {change : Change Key Rid} : Redoes config tree (mtr.change config page change) :=
  redoes.log

/-- What a new page held before does not matter. -/
theorem allocate (kind : NodeKind) :
    Redoes config tree (mtr.allocatePage.change config mtr.nextPageNum (Mtr.initEmpty kind)) := by
  rw [Redoes, Mtr.change, Mtr.log, foldl_append, Mtr.allocatePage, redoes]
  cases kind <;> simp [Operation.apply, Tree.setPage, Mtr.initEmpty, Change.apply]

theorem adopt_children {items : List (Key × Nat)} :
    Returns (Redoes config tree) (mtr.adoptChildren config page items) := by
  induction items generalizing mtr with
  | nil => exact returns_ok redoes
  | cons item rest ih => exact returns_read fun _ => ih redoes.change

theorem copy_items :
    Returns (Redoes config tree) (mtr.copyItems config kind page index num other position) := by
  cases kind with
  | leaf => exact returns_ok redoes.change
  | internal => exact redoes.change.adopt_children

theorem set_next_page {next : Option Nat} :
    Redoes config tree (mtr.leafSetNextPage config kind page next) := by
  cases kind with
  | leaf => exact redoes.change
  | internal => exact redoes

theorem split : Returns (Redoes config tree ·.1) (mtr.split config kind page) :=
  returns_bind (returns_bind (redoes.allocate kind).change.copy_items fun _ copied =>
    returns_ok copied.change) fun _ moved => returns_ok moved

theorem adjust_root : Redoes config tree (mtr.adjustRoot config page) := by
  fun_cases Mtr.adjustRoot with
  | case1 | case3 | case4 => exact redoes
  | case2 => exact redoes.log
  | case5 => exact redoes.change.log

theorem redistribute :
    Returns (Redoes config tree) (mtr.redistribute config kind other page parent index) := by
  unfold Mtr.redistribute
  split
  all_goals
    refine returns_bind (returns_bind redoes.copy_items fun _ copied =>
      returns_ok copied.change) fun _ moved => ?_
    exact returns_read fun _ => returns_ok moved.change

theorem coalesce :
    Returns (Redoes config tree) (mtr.coalesce config kind page other parent index) :=
  returns_bind (returns_bind redoes.change.copy_items fun _ copied =>
    returns_ok copied.set_next_page.change) fun _ moved => returns_ok moved.set_next_page

variable [KeyComparator Key]

theorem insert_entry_into_parent :
    Returns (Redoes config tree) (mtr.insertEntryIntoParent config fuel page other key) := by
  induction fuel generalizing mtr page other key with
  | zero => exact nofun
  | succ fuel ih =>
    unfold Mtr.insertEntryIntoParent
    split
    · exact returns_ok (redoes.allocate .internal).change.change.change.log
    · refine returns_read fun _ => ?_
      split
      · exact returns_ok redoes.change.change
      · refine returns_bind redoes.split fun _ halved => returns_read fun _ => ?_
        exact returns_read fun _ => ih halved.change.change

theorem insert_entry_into_leaf_node :
    Returns (Redoes config tree) (mtr.insertEntryIntoLeafNode config fuel page key rid) := by
  unfold Mtr.insertEntryIntoLeafNode
  split
  · exact nofun
  split
  · exact returns_ok redoes.change
  refine returns_bind redoes.split fun _ halved => returns_read fun _ => ?_
  apply insert_entry_into_parent
  split
  all_goals exact halved.change.change.change.change

theorem coalesce_or_redistribute :
    Returns (Redoes config tree) (mtr.coalesceOrRedistribute config fuel kind page) := by
  induction fuel generalizing mtr kind page with
  | zero => exact nofun
  | succ fuel ih =>
    unfold Mtr.coalesceOrRedistribute
    dsimp only
    split
    · exact returns_ok redoes
    split
    · split
      · exact returns_ok redoes
      · exact returns_ok redoes.adjust_root
    iterate 4 refine returns_read fun _ => ?_
    split
    · exact redoes.redistribute
    split
    all_goals exact returns_bind redoes.coalesce fun _ merged => ih merged

theorem delete_entry_internal :
    Returns (Redoes config tree) (mtr.deleteEntryInternal config fuel page key) := by
  unfold Mtr.deleteEntryInternal
  split
  · exact nofun
  dsimp only
  split
  · exact returns_ok redoes.change
  · exact redoes.change.coalesce_or_redistribute

end Redoes

section Pages

variable {page : Nat} {operations : List (Operation Key Rid)} {operation : Operation Key Rid}
  {index state next : Index Key Rid} {lsn : Int}

theorem writes_redone [KeyComparator Key] (written : Writes config state lsn operations next) :
    next.image page = (state.apply config lsn operations).image page := by
  obtain ⟨mtr, returned, rfl, rfl⟩ := written
  have start : Redoes config state.tree (.start state.tree) := rfl
  suffices redoes : Redoes config state.tree mtr by
    simp only [Index.image, Index.apply, show _ = _ from redoes]
    rfl
  obtain ⟨key, rid, returned⟩ | ⟨key, returned⟩ := returned <;> revert mtr
  · unfold Tree.insertEntry
    split
    · exact returns_ok (start.allocate .leaf).change.log
    refine returns_read fun _ => ?_
    split
    · exact nofun
    · exact start.insert_entry_into_leaf_node
  · unfold Tree.deleteEntry
    split
    · exact nofun
    refine returns_read fun _ => ?_
    split
    · exact nofun
    · exact start.delete_entry_internal

/-- What an operation makes of its page. -/
def Operation.effect (config : Config Key) (content : Node Key Rid × Option Nat) :
    Operation Key Rid → Node Key Rid × Option Nat
  | .updateRootPage root => (content.1, root)
  | .node _ change => (change.apply config content.1, content.2)

theorem content_apply : (operation.apply config tree).content page =
    if operation.page = page then operation.effect config (tree.content page)
    else tree.content page := by
  cases operation with
  | updateRootPage root => grind [Tree.content, Operation.apply, Operation.page, Operation.effect]
  | node changed change =>
    simp only [Tree.content, Operation.apply, Tree.setPage, update_apply, Operation.page,
      Operation.effect]
    grind

theorem content_foldl : (operations.foldl (Operation.apply config) tree).content page =
    (operations.filter (·.page = page)).foldl (Operation.effect config) (tree.content page) := by
  induction operations generalizing tree with
  | nil => rfl
  | cons operation rest ih =>
    rw [foldl_cons, ih, content_apply, filter_cons]
    by_cases here : operation.page = page <;> simp [here]

theorem image_congr {first : List (Operation Key Rid)} (second : List (Operation Key Rid))
    (same : index.image page = state.image page)
    (kept : first.filter (·.page = page) = second.filter (·.page = page)) :
    (index.apply config lsn first).image page = (state.apply config lsn second).image page := by
  have touched (operations : List (Operation Key Rid)) :
      page ∈ operations.map Operation.page ↔ operations.filter (·.page = page) ≠ [] := by simp
  obtain ⟨content, number⟩ : index.tree.content page = state.tree.content page ∧ _ :=
    Prod.ext_iff.mp same
  refine Prod.ext ?_ (if_congr (by rw [touched, touched, kept]) rfl number)
  exact content_foldl.trans (by rw [kept, content, ← content_foldl]; rfl)

variable {fetches : Int → Nat → Bool}
  (fetched : ∀ operation ∈ operations, fetches lsn operation.page = true)
include fetched

theorem redo_fetched : index.redo config fetches (lsn, operations) =
    index.apply config lsn (operations.filter (index.lsn ·.page < lsn)) := by
  simp [Index.redo, takeWhile_eq_self_iff.mpr fetched]

theorem redo_skips (newer : lsn ≤ index.lsn page) :
    (index.redo config fetches (lsn, operations)).image page = index.image page := by
  rw [redo_fetched fetched]
  refine image_congr [] rfl (filter_eq_nil_iff.mpr ?_)
  grind

theorem redo_applies [KeyComparator Key] (same : index.image page = state.image page)
    (older : state.lsn page < lsn) (written : Writes config state lsn operations next) :
    (index.redo config fetches (lsn, operations)).image page = next.image page := by
  have here : index.lsn page < lsn := (Prod.ext_iff.mp same).2.trans_lt older
  rw [redo_fetched fetched, writes_redone written]
  refine image_congr _ same ?_
  rw [filter_filter]
  refine filter_congr fun operation _ => ?_
  grind

end Pages

section Recovery

variable [KeyComparator Key] {initial last disk : Index Key Rid} {base : Int}
  (fresh : ∀ page, initial.lsn page ≤ base)
  {log : List (Logged (List (Operation Key Rid)) (Index Key Rid))} {page : Nat}
include fresh

theorem page_stamps : Stamps (Writes config) base initial (Index.image · page) Prod.snd where
  fresh := fresh page
  stamped := by
    intro state lsn operations next written
    rw [writes_redone written]
    by_cases touched : page ∈ operations.map Operation.page
    · exact .inr (.inr (if_pos touched))
    · exact .inl (image_congr [] rfl (by simpa using touched))

variable (history : History (Writes config) base initial log last) {fetches : Int → Nat → Bool}
include history

/-- The part of the log that has been redone grows. -/
theorem redo_follows (imaged : disk.image page = (stateAt initial log (disk.lsn page)).image page)
    {state : Index Key Rid} {part rest : List (Logged (List (Operation Key Rid)) (Index Key Rid))}
    (earlier : History (Writes config) base initial part state) (whole : part ++ rest = log)
    (fetched : ∀ logged ∈ part, ∀ operation ∈ logged.entry,
      fetches logged.lsn operation.page = true) :
    Tracks Prod.snd Eq (disk.image page) (lastLsn base part) (state.image page)
      (((entries part).foldl (Index.redo config fetches) disk).image page) := by
  have stamps : Stamps (Writes config) base initial (Index.image · page) _ := page_stamps fresh
  induction earlier generalizing rest with
  | start => exact stamps.tracks_start (fun _ => rfl) history imaged
  | append earlier later written ih =>
    obtain ⟨before, now⟩ := forall_mem_append.mp fetched
    rw [← append_cons] at whole
    have follows := ih whole before
    have older := stamps.le_lastLsn earlier _ earlier.last_mem_states
    have now := forall_mem_singleton.mp now
    subst whole
    rw [entries_append, foldl_append, lastLsn_append]
    -- the entry is skipped where the image on disk covers it, and made again elsewhere
    exact stamps.tracks_step (fun _ => rfl) earlier later written history.sorted_rest imaged follows
      (redo_skips now) fun same => (redo_applies now same.symm (older.trans_lt later) written).symm

end Recovery

section Emptied

open IndexEntry

def floatConfig : Config Entry := ⟨4, 4, ⟨.floats 0, ⟨0, 0⟩⟩⟩

def one : Entry := ⟨.floats 0x3F800000, ⟨1, 0⟩⟩

/-- An index on numbers whose pages carry the number 2 of an earlier log. -/
def checkpointed : Index Entry IndexEntry.Rid := ⟨.create, fun _ => 2⟩

end Emptied

end CsuDbms.BplusTreeModel
