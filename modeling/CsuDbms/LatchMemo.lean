import CsuDbms.TransitionSystem
import Mathlib

/-!
# Pins and latches of a mini transaction

`LatchMemo` records pins and latches as they are taken, gives up the first of them with
`release_to`, and keeps the pages to dispose of until `release`. A memo point is the number of
items at the time, so it counts other items once some have been given up.
-/

namespace CsuDbms.LatchMemoModel

open TransitionSystem List

inductive LatchMemoType where
  | none
  | shared
  | exclusive
  | pin
  deriving DecidableEq

/-- A frame, which is named by its page, or a lock. -/
inductive Target where
  | frame (page : Nat)
  | lock (name : Nat)
  deriving DecidableEq

/-- The items are numbered as they are recorded; nothing reads the number. -/
structure LatchMemoItem where
  type : LatchMemoType
  target : Target
  number : Nat
  deriving DecidableEq

/-- What the memo asks of a frame, a lock or the pool. -/
inductive Request where
  | pinPage (page : Nat)
  | writeLatch (page : Nat)
  | readLatch (page : Nat)
  | lock (name : Nat)
  | lockShared (name : Nat)
  | unpinPage (page : Nat)
  | writeUnlatch (page : Nat)
  | readUnlatch (page : Nat)
  | unlock (name : Nat)
  | unlockShared (name : Nat)
  deriving DecidableEq

def Request.undo : Request → Option Request
  | .pinPage page => some (.unpinPage page)
  | .writeLatch page => some (.writeUnlatch page)
  | .readLatch page => some (.readUnlatch page)
  | .lock name => some (.unlock name)
  | .lockShared name => some (.unlockShared name)
  | _ => none

/-- What was done when the item was recorded. The pool gives pins for frames only. -/
def LatchMemoItem.request : LatchMemoItem → Option Request
  | ⟨.pin, .frame page, _⟩ => some (.pinPage page)
  | ⟨.exclusive, .frame page, _⟩ => some (.writeLatch page)
  | ⟨.exclusive, .lock name, _⟩ => some (.lock name)
  | ⟨.shared, .frame page, _⟩ => some (.readLatch page)
  | ⟨.shared, .lock name, _⟩ => some (.lockShared name)
  | _ => none

def releaseItem (item : LatchMemoItem) : Option Request :=
  match item.type, item.target with
  | .exclusive, .frame page => some (.writeUnlatch page)
  | .exclusive, .lock name => some (.unlock name)
  | .shared, .frame page => some (.readUnlatch page)
  | .shared, .lock name => some (.unlockShared name)
  | .pin, .frame page => some (.unpinPage page)
  | _, _ => none

/-- An item is given up in the mode and on the frame or lock it was taken for. -/
theorem release_item_undoes (item : LatchMemoItem) :
    releaseItem item = item.request.bind Request.undo := by
  obtain ⟨type, target, number⟩ := item
  cases type <;> cases target <;> rfl

/-- The request of an item is made, `release_item` is called for it, or the pool is told to
dispose of a page. -/
inductive Event where
  | taken (item : LatchMemoItem)
  | released (item : LatchMemoItem)
  | disposed (page : Nat)
  deriving DecidableEq

open Event

/-- `gone` counts the items erased, `points` has the memo points with `gone` at their time, and
`events` is what happened, the latest first. Nothing reads these three. -/
structure LatchMemo where
  items : List LatchMemoItem
  disposedPages : List Nat
  gone : Nat
  points : List (Nat × Nat)
  events : List Event

namespace LatchMemo

def empty : LatchMemo := ⟨[], [], 0, [], []⟩

variable (memo : LatchMemo)

def record (type : LatchMemoType) (target : Target) : LatchMemo :=
  let item := ⟨type, target, memo.gone + memo.items.length⟩
  { memo with items := memo.items ++ [item], events := taken item :: memo.events }

/-- The assertion on the type does nothing. `try_slatch` may be refused. -/
def latch (target : Target) (type : LatchMemoType) (granted : Bool) : LatchMemo :=
  if ¬granted then memo
  else if type = .exclusive ∨ type = .shared then memo.record type target
  else { memo.record type target with events := memo.events }

/-- From the last of the items down to the first one. -/
def releaseTo (point : Nat) : Option LatchMemo :=
  if memo.items.length < point then none
  else some { memo with
    items := memo.items.drop point
    gone := memo.gone + point
    events := (memo.items.take point).map released ++ memo.events }

def release : Option LatchMemo :=
  (memo.releaseTo memo.items.length).map fun memo =>
    { memo with
      disposedPages := []
      events := memo.disposedPages.reverse.map disposed ++ memo.events }

end LatchMemo

open LatchMemo

/-- A call, with what the pool and the latches answer. A point is named by its place among those
asked for. -/
inductive Call where
  | getPage (page : Nat) (found : Bool)
  | allocatePage (page : Nat) (found : Bool)
  | disposePage (page : Nat)
  | latch (target : Target) (type : LatchMemoType) (granted : Bool)
  | memoPoint
  | releaseTo (index : Nat)
  | release

def step (memo : LatchMemo) : Call → Option LatchMemo
  | .getPage page found | .allocatePage page found =>
    some (if found then memo.record .pin (.frame page) else memo)
  | .disposePage page => some { memo with disposedPages := memo.disposedPages ++ [page] }
  | .latch target type granted => some (memo.latch target type granted)
  | .memoPoint => some { memo with points := memo.points ++ [(memo.items.length, memo.gone)] }
  | .releaseTo index => (memo.points[index]?).bind fun point => memo.releaseTo point.1
  | .release => memo.release

def Parts (front back : List LatchMemoItem) : Prop :=
  ∀ pin ∈ front, pin.type = .pin → ∀ latch ∈ back, latch.target = pin.target → latch.type = .pin

/-- Latches are shared or exclusive, no page is disposed of twice before a release, and nothing
was given up since a point was taken, unless there was nothing then. -/
def Orderly (memo : LatchMemo) : Call → Prop
  | .latch _ type _ => type = .exclusive ∨ type = .shared
  | .disposePage page => page ∉ memo.disposedPages
  | .releaseTo index => ∀ point ∈ memo.points[index]?, (point.1 = 0 ∨ point.2 = memo.gone) ∧
      Parts (memo.items.take point.1) (memo.items.drop point.1)
  | _ => True

/-- What is taken is new, it is given up once, a pin after the latches taken later on its page,
and a page is disposed of while nothing is held. -/
def Fits (earlier : List Event) : Event → Prop
  | taken item => ∀ other, taken other ∈ earlier → other.number < item.number
  | released item => taken item ∈ earlier ∧ released item ∉ earlier ∧ (item.type = .pin →
      ∀ latch, taken latch ∈ earlier → latch.type ≠ .pin → latch.target = item.target →
        item.number < latch.number → released latch ∈ earlier)
  | disposed _ => ∀ item, taken item ∈ earlier → released item ∈ earlier

def Ordered : List Event → Prop
  | [] => True
  | event :: earlier => Fits earlier event ∧ Ordered earlier

structure Balanced (memo : LatchMemo) : Prop where
  ordered : Ordered memo.events
  held : ∀ item, item ∈ memo.items ↔ taken item ∈ memo.events ∧ released item ∉ memo.events
  numbered : memo.items.map LatchMemoItem.number = range' memo.gone memo.items.length
  before : ∀ item, taken item ∈ memo.events → item.number < memo.gone + memo.items.length
  points : ∀ point ∈ memo.points, point.2 ≤ memo.gone ∧
    (point.2 = memo.gone → point.1 ≤ memo.items.length)
  waiting : memo.disposedPages.Nodup

variable {events : List Event}

theorem ordered_release {items : List LatchMemoItem} (ordered : Ordered events)
    (numbers : items.Pairwise (·.number < ·.number))
    (held : ∀ item ∈ items, taken item ∈ events ∧ released item ∉ events)
    (inner : ∀ pin ∈ items, pin.type = .pin → ∀ latch, taken latch ∈ events → latch.type ≠ .pin →
      latch.target = pin.target → pin.number < latch.number →
        released latch ∈ events ∨ latch ∈ items) :
    Ordered (items.map released ++ events) := by
  induction items with
  | nil => exact ordered
  | cons first items ih =>
    obtain ⟨⟨present, fresh⟩, others⟩ := forall_mem_cons.mp held
    obtain ⟨least, numbers⟩ := pairwise_cons.mp numbers
    refine ⟨⟨mem_append_right _ present, ?_, fun pinned latch there kind same later => ?_⟩,
      ih numbers others fun pin member pinned latch there kind same later => ?_⟩
    · have absent : first ∉ items := fun member => (least first member).false
      simpa [fresh] using absent
    · have found := inner first mem_cons_self pinned latch (by simpa using there) kind same later
      have other : latch ≠ first := fun equal => (equal ▸ later).false
      simpa [other, or_comm] using found
    · have found := inner pin (.tail _ member) pinned latch there kind same later
      have other : latch ≠ first := fun equal => (equal ▸ later).not_gt (least pin member)
      simpa [other] using found

theorem taken_of_released (ordered : Ordered events) {item : LatchMemoItem}
    (there : released item ∈ events) : taken item ∈ events := by
  induction events with
  | nil => cases there
  | cons event events ih =>
    rcases mem_cons.mp there with rfl | earlier
    · exact .tail _ ordered.1.1
    · exact .tail _ (ih ordered.2 earlier)

theorem balanced_empty : Balanced .empty := by
  constructor <;> simp [LatchMemo.empty, Ordered]

section

variable {memo : LatchMemo} (balanced : Balanced memo)
include balanced

theorem balanced_record (type : LatchMemoType) (target : Target) :
    Balanced (memo.record type target) where
  ordered := ⟨balanced.before, balanced.ordered⟩
  held item := by
    have own := balanced.held item
    have fresh (there : released item ∈ memo.events) :=
      balanced.before item (taken_of_released balanced.ordered there)
    simp only [record, mem_append, mem_cons, reduceCtorEq, not_mem_nil, Event.taken.injEq]
    grind
  numbered := by simp [record, balanced.numbered, range'_concat]
  before item there := by
    have earlier := balanced.before item
    simp [record] at there ⊢
    grind
  points point member := by
    have bounds := balanced.points point member
    simp [record]
    omega
  waiting := balanced.waiting

section

variable {front back : List LatchMemoItem} (whole : memo.items = front ++ back)
include whole

theorem numbers_of_parts : front.map LatchMemoItem.number = range' memo.gone front.length ∧
    back.map LatchMemoItem.number = range' (memo.gone + front.length) back.length := by
  refine append_inj ?_ (by simp)
  rw [← map_append, ← whole, balanced.numbered, whole, length_append, range'_append_1]

theorem numbers_apart : (∀ item ∈ front, item.number < memo.gone + front.length) ∧
    ∀ item ∈ back, memo.gone + front.length ≤ item.number := by
  obtain ⟨first, second⟩ := numbers_of_parts balanced whole
  constructor
  · intro item member
    exact (mem_range'_1.mp (first ▸ mem_map_of_mem member)).2
  · intro item member
    exact (mem_range'_1.mp (second ▸ mem_map_of_mem member)).1

theorem balanced_cut (parts : Parts front back) :
    Balanced { memo with
      items := back
      gone := memo.gone + front.length
      events := front.map released ++ memo.events } := by
  have sorted : memo.items.Pairwise (·.number < ·.number) :=
    pairwise_map.mp (balanced.numbered ▸ pairwise_lt_range')
  have held item : item ∈ front ∨ item ∈ back ↔ taken item ∈ memo.events ∧
      released item ∉ memo.events := by rw [← mem_append, ← whole, balanced.held]
  obtain ⟨low, high⟩ := numbers_apart balanced whole
  rw [whole] at sorted
  constructor
  · refine ordered_release balanced.ordered (pairwise_append.mp sorted).1
      (fun item member => (held item).mp (.inl member)) ?_
    intro pin member pinned latch there kind same later
    by_contra! kept
    have behind := ((held latch).mpr ⟨there, kept.1⟩).resolve_left kept.2
    exact kind (parts pin member pinned latch behind same)
  · intro item
    have inside := held item
    simp
    grind
  · exact (numbers_of_parts balanced whole).2
  · intro item there
    have earlier := balanced.before item (by simpa using there)
    simpa [whole, Nat.add_assoc] using earlier
  · intro point member
    have bounds := balanced.points point member
    simp [whole] at bounds ⊢
    omega
  · exact balanced.waiting

end

theorem released_of_taken (none : memo.items = []) {item : LatchMemoItem}
    (there : taken item ∈ memo.events) : released item ∈ memo.events := by
  by_contra kept
  cases none ▸ (balanced.held item).mpr ⟨there, kept⟩

theorem balanced_dispose (none : memo.items = []) :
    Balanced { memo with
      disposedPages := []
      events := memo.disposedPages.reverse.map disposed ++ memo.events } := by
  have ordered (pages : List Nat) : Ordered (pages.map disposed ++ memo.events) := by
    induction pages with
    | nil => exact balanced.ordered
    | cons page pages ih =>
      exact ⟨by simpa [Fits] using fun item => released_of_taken balanced none, ih⟩
  constructor
  · exact ordered _
  · simpa using balanced.held
  · exact balanced.numbered
  · simpa using balanced.before
  · exact balanced.points
  · exact nodup_nil

theorem release_to_point {index : Nat} {point : Nat × Nat} (known : memo.points[index]? = some point)
    (orderly : Orderly memo (.releaseTo index)) :
    ∃ next, step memo (.releaseTo index) = some next ∧ Balanced next ∧
      next.items = memo.items.filter (point.1 + point.2 ≤ ·.number) := by
  obtain ⟨fresh, parts⟩ := orderly point known
  have bounds := balanced.points point (mem_of_getElem? known)
  have inside : point.1 ≤ memo.items.length := by omega
  have whole := (take_append_drop point.1 memo.items).symm
  have cut := balanced_cut balanced whole parts
  obtain ⟨low, high⟩ := numbers_apart balanced whole
  rw [length_take_of_le inside] at cut low high
  refine ⟨_, by rw [step, known, Option.bind_some, releaseTo, if_neg (by omega)], cut, ?_⟩
  conv_rhs => rw [whole, filter_append]
  rw [filter_eq_nil_iff.mpr ?_, filter_eq_self.mpr ?_, nil_append]
  · intro item member
    have behind := high item member
    simp
    omega
  · intro item member
    have before := low item member
    have some := length_pos_of_mem member
    simp at some ⊢
    omega

theorem release_all : ∃ next, step memo .release = some next ∧ Balanced next ∧ next.items = [] ∧
    ∀ page, next.events.count (disposed page) =
      memo.events.count (disposed page) + if page ∈ memo.disposedPages then 1 else 0 := by
  have cut := balanced_cut balanced (append_nil _).symm (by simp [Parts])
  refine ⟨_, by simp [step, release, releaseTo], balanced_dispose cut rfl, rfl, fun page => ?_⟩
  have others : (memo.items.map released).count (disposed page) = 0 := count_eq_zero.mpr (by simp)
  have own := count_map_of_injective memo.disposedPages.reverse _ @disposed.inj page
  rw [count_append, count_append, own, others, count_reverse, balanced.waiting.count]
  omega

theorem balanced_step {call : Call} {next : LatchMemo} (orderly : Orderly memo call)
    (taken : step memo call = some next) : Balanced next := by
  cases call with
  | getPage page found | allocatePage page found =>
    cases taken
    cases found with
    | false => exact balanced
    | true => exact balanced_record balanced _ _
  | disposePage page =>
    cases taken
    exact { balanced with waiting := concat_eq_append ▸ balanced.waiting.concat orderly }
  | latch target type granted =>
    cases taken
    cases granted with
    | false => exact balanced
    | true =>
      have kind : type = .exclusive ∨ type = .shared := orderly
      simpa [LatchMemo.latch, kind] using balanced_record balanced type target
  | memoPoint =>
    cases taken
    refine { balanced with points := ?_ }
    simpa [or_imp, forall_and] using balanced.points
  | releaseTo index =>
    obtain ⟨point, known, -⟩ := Option.bind_eq_some_iff.mp taken
    obtain ⟨last, same, kept, -⟩ := release_to_point balanced known orderly
    cases same.symm.trans taken
    exact kept
  | release =>
    obtain ⟨last, same, kept, -⟩ := release_all balanced
    cases same.symm.trans taken
    exact kept

end

theorem latch_memo_balance {memo : LatchMemo} (run : Reaches step Orderly .empty memo) :
    Ordered memo.events ∧
    (∀ item, item ∈ memo.items ↔ taken item ∈ memo.events ∧ released item ∉ memo.events) ∧
    (∀ index point, memo.points[index]? = some point → Orderly memo (.releaseTo index) →
      ∃ next, step memo (.releaseTo index) = some next ∧
        next.items = memo.items.filter (point.1 + point.2 ≤ ·.number)) ∧
    ∃ next, step memo .release = some next ∧ Ordered next.events ∧
      (∀ item, taken item ∈ next.events → released item ∈ next.events) ∧
      ∀ page, next.events.count (disposed page) =
        memo.events.count (disposed page) + if page ∈ memo.disposedPages then 1 else 0 := by
  have balanced : Balanced memo := reaches_invariant Balanced
    (fun _ _ _ balanced => balanced_step balanced) balanced_empty run
  refine ⟨balanced.ordered, balanced.held, fun index point known orderly => ?_, ?_⟩
  · obtain ⟨next, taken, -, kept⟩ := release_to_point balanced known orderly
    exact ⟨next, taken, kept⟩
  · obtain ⟨next, taken, after, none, disposals⟩ := release_all balanced
    exact ⟨next, taken, after.ordered, fun _ => released_of_taken after none, disposals⟩

instance (memo : LatchMemo) (call : Call) : Decidable (Orderly memo call) := by
  rcases call <;> dsimp only [Orderly, Parts] <;> infer_instance

def crabingProtocalFetchPage (memo : LatchMemo) (page : Nat) (found readonly safe : Bool) :
    List Call :=
  [.memoPoint, .getPage page found] ++ if ¬found then [] else
    .latch (.frame page) (if readonly then .shared else .exclusive) true ::
      if safe then [.releaseTo memo.points.length] else []

def descent : List Call := [.getPage 1 true, .latch (.frame 1) .exclusive true, .memoPoint,
  .getPage 2 true, .latch (.frame 2) .exclusive true]

theorem descent_keeps_child : ∃ memo next, Reaches step Orderly .empty memo ∧
    step memo (.releaseTo 0) = some next ∧ next.items = memo.items.drop 2 := by
  have runs : (run step Orderly .empty descent).isSome = true := by decide
  obtain ⟨next, taken, kept⟩ := (latch_memo_balance (run_get_reaches runs)).2.2.1 0 (2, 0) rfl
    (by decide +revert)
  exact ⟨_, next, run_get_reaches runs, taken, kept⟩

/-- A pin is given up although a latch taken after it is held, and a point from before a release
gives up what was recorded after it. -/
theorem points_apart_fail :
    (∃ memo, run step (fun _ _ => True) .empty [.getPage 1 true, .memoPoint,
      .latch (.frame 1) .shared true, .releaseTo 0] = some memo ∧ ¬Ordered memo.events) ∧
    ∃ memo next, run step (fun _ _ => True) .empty [.getPage 1 true, .memoPoint, .release,
      .getPage 2 true] = some memo ∧ step memo (.releaseTo 0) = some next ∧
      next.items ≠ memo.items.filter (1 + 0 ≤ ·.number) := by
  refine ⟨⟨_, rfl, fun ordered => ?_⟩, _, _, rfl, rfl, by decide⟩
  have late := ordered.1.2.2 rfl ⟨.shared, .frame 1, 1⟩ (by decide) nofun rfl (by decide)
  revert late
  decide

def holds (memo : LatchMemo) : List (LatchMemoType × Target) :=
  memo.items.map fun item => (item.type, item.target)

section

variable (readonly : Bool)

def latchType : LatchMemoType := if readonly then .shared else .exclusive

def fetched (next : Nat × Bool) : List (LatchMemoType × Target) :=
  [(.pin, .frame next.1), (latchType readonly, .frame next.1)]

/-- The loop over the pages that are fetched, each with what `is_safe` says of it. -/
def descend (path : List (Nat × Bool)) : Option LatchMemo :=
  path.foldlM (fun memo next => run step Orderly memo
    (crabingProtocalFetchPage memo next.1 true readonly next.2))
    (LatchMemo.empty.latch (.lock 0) (latchType readonly) true)

/-- The function returns at a page that cannot be fetched. An empty tree has no pages. -/
def findLeafInternal (path : List (Nat × Bool)) (failed : Option Nat) : Option LatchMemo :=
  (descend readonly path).bind fun memo => failed.elim (some memo) fun page =>
    run step Orderly memo (crabingProtocalFetchPage memo page false readonly false)

/-- What was taken for the last safe page, or the root lock, and for the pages behind. -/
def heldAtLeaf (path : List (Nat × Bool)) : List (LatchMemoType × Target) :=
  (path.rdropWhile (!·.2)).getLast?.elim [(latchType readonly, .lock 0)] (fetched readonly) ++
    (path.rtakeWhile (!·.2)).flatMap (fetched readonly)

theorem fetch_holds {memo : LatchMemo} {next : Nat × Bool}
    (unpinned : ∀ type, (type, .frame next.1) ∉ holds memo) :
    ∃ last, run step Orderly memo (crabingProtocalFetchPage memo next.1 true readonly next.2) =
      some last ∧ holds last = (if next.2 then [] else holds memo) ++ fetched readonly next := by
  have inside : ¬memo.items.length + 1 + 1 < memo.items.length := by omega
  have apart : ∀ item ∈ memo.items, item.type = .pin → ¬.frame next.1 = item.target := by
    intro item member _ same
    exact unpinned item.type (same ▸ mem_map_of_mem member)
  rcases next with ⟨page, _ | _⟩ <;> cases readonly <;>
    simp [crabingProtocalFetchPage, run, Orderly, step, LatchMemo.latch, record, releaseTo, Parts,
      holds, fetched, latchType, if_pos apart, inside]

theorem descend_holds {path : List (Nat × Bool)} (distinct : (path.map Prod.fst).Nodup) :
    ∃ memo, descend readonly path = some memo ∧ holds memo = heldAtLeaf readonly path ∧
      ∀ type page, (type, .frame page) ∈ holds memo → page ∈ path.map Prod.fst := by
  induction path using List.reverseRecOn with
  | nil =>
    cases readonly <;> refine ⟨_, rfl, rfl, ?_⟩ <;>
      simp [holds, record, LatchMemo.latch, empty, latchType]
  | append_singleton path next ih =>
    obtain ⟨distinct, -, fresh⟩ := nodup_append.mp (map_append ▸ distinct)
    obtain ⟨memo, ran, held, known⟩ := ih distinct
    -- only pages of the path are held, so the next one is not pinned yet
    have unpinned type : (type, .frame next.1) ∉ holds memo :=
      fun member => fresh _ (known _ _ member) next.1 (by simp) rfl
    obtain ⟨last, taken, holding⟩ := fetch_holds readonly unpinned
    rw [descend] at ran
    refine ⟨last, by simp [descend, foldlM_append, ran, taken], ?_, ?_⟩
    · cases safe : next.2 <;> simp [holding, held, heldAtLeaf, safe]
    · grind [fetched]

/-- Whatever `is_safe` answers and whether or not a fetch fails, a descent releases in order and
gives up everything above the last safe page, and nothing else. -/
theorem descent_holds_from_safe {path : List (Nat × Bool)} (distinct : (path.map Prod.fst).Nodup)
    (failed : Option Nat) : ∃ memo, findLeafInternal readonly path failed = some memo ∧
      holds memo = heldAtLeaf readonly path := by
  obtain ⟨memo, ran, held, -⟩ := descend_holds readonly distinct
  rw [findLeafInternal, ran]
  cases failed with
  | none => exact ⟨memo, rfl, held⟩
  | some page => exact ⟨_, rfl, held⟩

end

theorem insert_descent_holds : ∃ memo,
    findLeafInternal false [(1, false), (2, true), (3, false)] (some 4) = some memo ∧
      holds memo = [(.pin, .frame 2), (.exclusive, .frame 2), (.pin, .frame 3),
        (.exclusive, .frame 3)] :=
  descent_holds_from_safe false (by decide) (some 4)

end CsuDbms.LatchMemoModel
