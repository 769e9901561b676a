import CsuDbms.DoubleWriteBufferModel
import CsuDbms.TransitionSystem

/-!
# Crash protection by the double-write buffer

`Protects` says when the files alone are enough to bring every page back: the pages not yet in their
data files are the first whole slots of their keys, no other slot is valid, and every other data
page is current. Each single file write keeps it, so a crash may stop a call anywhere. Two things
break it. A new page takes the slot numbered by the size of the map, which may be in use after
`clear_pages` or lie behind an older slot of the page. And adding a page that is still buffered
overwrites its only whole copy.
-/

namespace CsuDbms.DoubleWriteBufferModel

open TransitionSystem List Option Function DoubleWritePage FileWrite

variable {Page : Type}

inductive Call (Page : Type) where
  | addPage (key : DoubleWritePageKey) (image : Page) (order : List (DoubleWritePage Page))
  | flushPage (order : List (DoubleWritePage Page))
  | clearPages (bufferPoolId : Int)

def Buffer.call (maxPages : Nat) (buffer : Buffer Page) :
    Call Page → Buffer Page × List (FileWrite Page)
  | .addPage key image order => buffer.addPage maxPages key image order
  | .flushPage order => flushPage order
  | .clearPages bufferPoolId => buffer.clearPages bufferPoolId

def Call.Ordered (buffer : Buffer Page) : Call Page → Prop
  | .addPage key image order =>
    buffer.find key = none →
      order.Perm (buffer.pages ++ [⟨key, buffer.pages.length, true, image⟩])
  | .flushPage order => order.Perm buffer.pages
  | .clearPages _ => True

instance [DecidableEq Page] (buffer : Buffer Page) (call : Call Page) :
    Decidable (call.Ordered buffer) := by
  cases call <;> dsimp only [Call.Ordered] <;> infer_instance

/-- The first `count` writes reach the files; the crash hits the next one, and
tears it if `torn` is set. -/
def crash (disk : Disk Page) (count : Nat) (torn : Bool) : List (FileWrite Page) → Disk Page
  | [] => disk
  | write :: rest =>
    match count with
    | 0 => if torn then write.tear disk else disk
    | count + 1 => crash (write.apply disk) count torn rest

/-- The buffer, the files, and for every page the image last passed to a
completed `add_page`, which nothing reads. -/
structure System (Page : Type) where
  buffer : Buffer Page
  disk : Disk Page
  latest : DoubleWritePageKey → Page

structure RecoveryCrash (Page : Type) where
  order : List (DoubleWritePage Page)
  count : Nat
  torn : Bool

def interrupt (disk : Disk Page) (attempts : List (RecoveryCrash Page)) : Disk Page :=
  attempts.foldl
    (fun disk attempt => crash disk attempt.count attempt.torn (flushPage attempt.order).2) disk

def AttemptsOrdered : Disk Page → List (RecoveryCrash Page) → Prop
  | _, [] => True
  | disk, attempt :: rest =>
    attempt.order.Perm (loadPages disk).pages ∧
      AttemptsOrdered (interrupt disk [attempt]) rest

instance [DecidableEq Page] (disk : Disk Page) (attempts : List (RecoveryCrash Page)) :
    Decidable (AttemptsOrdered disk attempts) := by
  induction attempts generalizing disk <;> dsimp only [AttemptsOrdered] <;> infer_instance

inductive Action (Page : Type) where
  | call (call : Call Page)
  | crash (call : Call Page) (count : Nat) (torn : Bool) (attempts : List (RecoveryCrash Page))

def Call.complete (latest : DoubleWritePageKey → Page) : Call Page → DoubleWritePageKey → Page
  | .addPage key image _ => update latest key image
  | .flushPage _ => latest
  | .clearPages _ => latest

def crashDisk (maxPages : Nat) (system : System Page) (call : Call Page) (count : Nat)
    (torn : Bool) : Disk Page :=
  crash system.disk count torn (system.buffer.call maxPages call).2

/-- The files after the crash, the attempts to recover that failed, and one
that did not. -/
def recoveredDisk (maxPages : Nat) (system : System Page) (call : Call Page) (count : Nat)
    (torn : Bool) (attempts : List (RecoveryCrash Page)) : Disk Page :=
  recover (interrupt (crashDisk maxPages system call count torn) attempts)

/-- After a crash the images found in the data files are the starting point of
what follows. -/
def step [DecidableEq Page] (maxPages : Nat) (system : System Page) :
    Action Page → Option (System Page)
  | .call call =>
    if call.Ordered system.buffer then
      let result := system.buffer.call maxPages call
      some { buffer := result.1, disk := applyWrites system.disk result.2,
             latest := call.complete system.latest }
    else none
  | .crash call count torn attempts =>
    if call.Ordered system.buffer ∧
        AttemptsOrdered (crashDisk maxPages system call count torn) attempts then
      let disk := recoveredDisk maxPages system call count torn attempts
      some { buffer := { pages := [], pageCnt := 0 }, disk := disk,
             latest := fun key =>
               match disk.data key with
               | .whole page => page
               | .torn => system.latest key }
    else none

def initial (data : DoubleWritePageKey → Page) : System Page where
  buffer := { pages := [], pageCnt := 0 }
  disk := { pageCnt := 0, slots := fun _ => .torn, data := fun key => .whole (data key) }
  latest := data

def Stored.holdsKey (key : DoubleWritePageKey) : Stored (DoubleWritePage Page) → Bool
  | .torn => false
  | .whole page => page.key = key

/-- A page that is not buffered gets the slot numbered by the size of the map:
no buffered page is in that slot, and no slot before it names the same page. -/
def FreshSlot (system : System Page) (key : DoubleWritePageKey) : Prop :=
  (∀ page ∈ system.buffer.pages, page.pageIndex ≠ system.buffer.pages.length) ∧
    ∀ index < system.buffer.pages.length, (system.disk.slots index).holdsKey key = false

def Call.TakesFreshSlot (system : System Page) : Call Page → Prop
  | .addPage key _ _ => system.buffer.find key = none → FreshSlot system key
  | .flushPage _ => True
  | .clearPages _ => True

def Call.rewritesSlot (buffer : Buffer Page) : Call Page → Bool
  | .addPage key _ _ => (buffer.find key).isSome
  | .flushPage _ => false
  | .clearPages _ => false

/-- The crash does not tear a slot that is the only whole copy of its page. -/
def SlotSafe (system : System Page) : Action Page → Prop
  | .call call => call.TakesFreshSlot system
  | .crash call count torn _ => call.TakesFreshSlot system ∧
      ¬ (call.rewritesSlot system.buffer = true ∧ count = 0 ∧ torn = true)

instance (system : System Page) (key : DoubleWritePageKey) : Decidable (FreshSlot system key) :=
  inferInstanceAs (Decidable (_ ∧ _))

instance (system : System Page) (call : Call Page) : Decidable (call.TakesFreshSlot system) := by
  cases call <;> dsimp only [Call.TakesFreshSlot] <;> infer_instance

instance (system : System Page) (action : Action Page) : Decidable (SlotSafe system action) := by
  cases action <;> dsimp only [SlotSafe] <;> infer_instance

/-- The files are enough to bring back every page; `live` are the pages whose
data file is not yet written. -/
structure Protects (disk : Disk Page) (live : Set (DoubleWritePage Page))
    (latest : DoubleWritePageKey → Page) : Prop where
  stored : ∀ page ∈ live, disk.slots page.pageIndex = .whole page ∧
    page.pageIndex < disk.pageCnt
  current : ∀ page ∈ live, page.valid = true ∧ page.page = latest page.key
  first : ∀ page ∈ live, ∀ index, index < page.pageIndex → ∀ other,
    disk.slots index = .whole other → other.key ≠ page.key
  onlyLive : ∀ index, index < disk.pageCnt → ∀ page, disk.slots index = .whole page →
    page.valid = true → page ∈ live
  clean : ∀ key, (∀ page ∈ live, page.key ≠ key) → disk.data key = .whole (latest key)
  indexed : ∀ index page, disk.slots index = .whole page → page.pageIndex = index

variable {disk : Disk Page} {live : Set (DoubleWritePage Page)} {latest : DoubleWritePageKey → Page}
  {page other : DoubleWritePage Page}

section

variable (protects : Protects disk live latest)
include protects

section

variable (pageLive : page ∈ live)
include pageLive

theorem live_eq_of_index (otherLive : other ∈ live) (same : page.pageIndex = other.pageIndex) :
    page = other := by
  have pageStored := (protects.stored page pageLive).1
  rw [same, (protects.stored other otherLive).1] at pageStored
  exact (Stored.whole.inj pageStored).symm

theorem live_eq_of_key (otherLive : other ∈ live) (same : page.key = other.key) : page = other := by
  rcases Nat.lt_trichotomy page.pageIndex other.pageIndex with lower | equal | higher
  · exact absurd same (protects.first other otherLive _ lower page
      (protects.stored page pageLive).1)
  · exact live_eq_of_index protects pageLive otherLive equal
  · exact absurd same.symm (protects.first page pageLive _ higher other
      (protects.stored other otherLive).1)

theorem protects_data_write (value : Stored Page) :
    Protects { disk with data := update disk.data page.key value } live latest where
  stored := protects.stored
  current := protects.current
  first := protects.first
  onlyLive := protects.onlyLive
  clean := by
    intro key notLive
    have different : key ≠ page.key := fun same => notLive page pageLive same.symm
    simp only
    rw [update_of_ne different]
    exact protects.clean key notLive
  indexed := protects.indexed

end

/-- A slot is written and the pages outside `left` are given up: their images are in their data
files, and what is written counts for none of the others. -/
theorem protects_slot {left : Set (DoubleWritePage Page)} {index : Nat}
    {value : Stored (DoubleWritePage Page)} (leftLive : left ⊆ live)
    (free : ∀ page ∈ left, page.pageIndex ≠ index)
    (own : ∀ found, value = .whole found → found.pageIndex = index ∧
      (found.valid = true → disk.pageCnt ≤ index) ∧
      ∀ page ∈ left, index < page.pageIndex → found.key ≠ page.key)
    (dropped : ∀ page ∈ live, page ∉ left → page.pageIndex = index ∧
      disk.data page.key = .whole (latest page.key)) :
    Protects { disk with slots := update disk.slots index value } left latest where
  stored := by
    intro page pageLeft
    simp only
    rw [update_of_ne (free page pageLeft)]
    exact protects.stored page (leftLive pageLeft)
  current := fun page pageLeft => protects.current page (leftLive pageLeft)
  first := by
    intro page pageLeft lowerIndex lower found slot
    simp only [update_apply] at slot
    split at slot
    · rename_i same
      exact (own found slot).2.2 page pageLeft (same ▸ lower)
    · exact protects.first page (leftLive pageLeft) lowerIndex lower found slot
  onlyLive := by
    intro slotIndex bound found slot valid
    simp only [update_apply] at slot
    split at slot
    · rename_i same
      exact absurd bound (Nat.not_lt.mpr (same ▸ (own found slot).2.1 valid))
    · rename_i different
      have foundLive := protects.onlyLive slotIndex bound found slot valid
      by_contra gone
      exact different (protects.indexed slotIndex found slot ▸ (dropped found foundLive gone).1)
  clean := by
    intro key notLeft
    by_cases keyLive : ∃ page ∈ live, page.key = key
    · obtain ⟨page, pageLive, rfl⟩ := keyLive
      exact (dropped page pageLive fun pageLeft => notLeft page pageLeft rfl).2
    · exact protects.clean key fun page pageLive same => keyLive ⟨page, pageLive, same⟩
  indexed := by
    intro slotIndex found slot
    simp only [update_apply] at slot
    split at slot
    · rename_i same
      exact (own found slot).1.trans same.symm
    · exact protects.indexed slotIndex found slot

theorem protects_drop (pageLive : page ∈ live)
    (written : disk.data page.key = .whole (latest page.key))
    {value : Stored (DoubleWritePage Page)}
    (dropped : value = .torn ∨ value = .whole page.invalidate) :
    Protects { disk with slots := update disk.slots page.pageIndex value }
      (live \ {page}) latest := by
  refine protects_slot protects Set.sdiff_subset ?_ ?_ ?_
  · intro other otherLeft same
    exact otherLeft.2 (live_eq_of_index protects otherLeft.1 pageLive same)
  · intro found held
    rcases dropped with rfl | rfl
    · cases held
    · cases held
      refine ⟨rfl, by simp [invalidate], fun other otherLeft lower => ?_⟩
      exact protects.first other otherLeft.1 _ lower page (protects.stored page pageLive).1
  · intro other otherLive notLeft
    obtain rfl : other = page := by
      by_contra different
      exact notLeft ⟨otherLive, different⟩
    exact ⟨rfl, written⟩

theorem protects_tear {index : Nat} (free : ∀ page ∈ live, page.pageIndex ≠ index) :
    Protects { disk with slots := update disk.slots index .torn } live latest :=
  protects_slot protects subset_rfl free (fun _ held => by cases held)
    fun _ pageLive notLeft => absurd pageLive notLeft

end

theorem crash_append (disk : Disk Page) (count : Nat) (torn : Bool)
    (first second : List (FileWrite Page)) :
    crash disk count torn (first ++ second) =
      if count < first.length then crash disk count torn first
      else crash (applyWrites disk first) (count - first.length) torn second := by
  induction first generalizing disk count with
  | nil => simp [applyWrites]
  | cons write first ih =>
    cases count with
    | zero => simp [crash]
    | succ count => simp [crash, ih, applyWrites]

theorem crash_all (disk : Disk Page) (count : Nat) (torn : Bool)
    (writes : List (FileWrite Page)) (all : writes.length ≤ count) :
    crash disk count torn writes = applyWrites disk writes := by
  induction writes generalizing disk count with
  | nil => simp [crash, applyWrites]
  | cons write writes ih =>
    cases count with
    | zero => simp at all
    | succ count => exact ih _ _ (Nat.le_of_succ_le_succ all)

def StoredAt (disk : Disk Page) (page : DoubleWritePage Page) : Prop :=
  disk.slots page.pageIndex = .whole page ∧ page.pageIndex < disk.pageCnt

theorem write_back_valid (valid : page.valid = true) :
    page.writeBack = [.data page.key page.page, .slot page.invalidate] := by
  simp [writeBack, valid]

theorem write_back_invalid (invalid : ¬page.valid = true) :
    page.writeBack = [.slot page.invalidate] := by
  simp [writeBack, invalid]

section

variable (protects : Protects disk live latest) (stored : StoredAt disk page)
  (validLive : page.valid = true → page ∈ live)
include protects stored validLive

theorem protects_write_back :
    Protects (applyWrites disk page.writeBack) (live \ {page}) latest := by
  by_cases valid : page.valid = true
  · have pageLive := validLive valid
    rw [write_back_valid valid]
    apply protects_drop (protects_data_write protects pageLive (.whole page.page)) pageLive
    · simp [(protects.current page pageLive).2]
    · exact .inr rfl
  · have same : page.invalidate = page := by
      obtain ⟨key, pageIndex, isValid, image⟩ := page
      simp_all [invalidate]
    have unchanged : applyWrites disk page.writeBack = disk := by
      rw [write_back_invalid valid, same]
      simp [applyWrites, apply, ← stored.1]
    have notLive : page ∉ live := fun pageLive => valid (protects.current page pageLive).1
    rw [unchanged, Set.sdiff_singleton_eq_self notLive]
    exact protects

theorem protects_write_back_crash (count : Nat) (torn : Bool) :
    ∃ left, Protects (crash disk count torn page.writeBack) left latest := by
  by_cases all : page.writeBack.length ≤ count
  · rw [crash_all _ _ _ _ all]
    exact ⟨_, protects_write_back protects stored validLive⟩
  by_cases valid : page.valid = true
  · have pageLive := validLive valid
    have image := (protects.current page pageLive).2
    rw [write_back_valid valid] at all ⊢
    match count, torn with
    | 0, false => exact ⟨live, protects⟩
    | 0, true => exact ⟨live, protects_data_write protects pageLive .torn⟩
    | 1, false => exact ⟨live, protects_data_write protects pageLive (.whole page.page)⟩
    | 1, true =>
      refine ⟨_, protects_drop (protects_data_write protects pageLive (.whole page.page))
        pageLive ?_ (.inl rfl)⟩
      simp [image]
    | count + 2, _ => simp at all
  · rw [write_back_invalid valid] at all ⊢
    match count, torn with
    | 0, false => exact ⟨live, protects⟩
    | 0, true =>
      refine ⟨live, protects_tear protects fun other otherLive same => valid ?_⟩
      have otherStored := (protects.stored other otherLive).1
      rw [same] at otherStored
      rw [← Stored.whole.inj (otherStored.symm.trans stored.1)]
      exact (protects.current other otherLive).1
    | count + 1, _ => simp at all

end

theorem stored_at_write_back
    (stored : StoredAt disk other) (different : page.pageIndex ≠ other.pageIndex) :
    StoredAt (applyWrites disk page.writeBack) other := by
  have elsewhere : other.pageIndex ≠ page.invalidate.pageIndex := different.symm
  by_cases valid : page.valid = true
  · simpa [StoredAt, write_back_valid valid, applyWrites, apply, elsewhere] using stored
  · simpa [StoredAt, write_back_invalid valid, applyWrites, apply, elsewhere] using stored

structure Flushable (disk : Disk Page) (live : Set (DoubleWritePage Page))
    (order : List (DoubleWritePage Page)) : Prop where
  stored : ∀ page ∈ order, StoredAt disk page
  validLive : ∀ page ∈ order, page.valid = true → page ∈ live
  distinct : (order.map pageIndex).Nodup

theorem flushable_rest {rest : List (DoubleWritePage Page)}
    (flushable : Flushable disk live (page :: rest)) :
    Flushable (applyWrites disk page.writeBack) (live \ {page}) rest := by
  have fresh := (nodup_cons.mp flushable.distinct).1
  have different : ∀ other ∈ rest, page.pageIndex ≠ other.pageIndex := by
    intro other member same
    exact fresh (same ▸ mem_map_of_mem member)
  constructor
  · intro other member
    exact stored_at_write_back (flushable.stored other (.tail _ member)) (different other member)
  · intro other member valid
    refine ⟨flushable.validLive other (.tail _ member) valid, fun same => ?_⟩
    exact different other member (congrArg _ (Set.mem_singleton_iff.mp same).symm)
  · exact (nodup_cons.mp flushable.distinct).2

variable {order : List (DoubleWritePage Page)}

section

variable (protects : Protects disk live latest)
include protects

theorem protects_flush (flushable : Flushable disk live order) :
    Protects (applyWrites disk (order.flatMap writeBack))
      (live \ {page | page ∈ order}) latest := by
  induction order generalizing disk live with
  | nil => simpa [applyWrites] using protects
  | cons page rest ih =>
    have written := protects_write_back protects (flushable.stored page mem_cons_self)
      (flushable.validLive page mem_cons_self)
    have flushed := ih written (flushable_rest flushable)
    have left : live \ {other | other ∈ page :: rest} =
        (live \ {page}) \ {other | other ∈ rest} := by
      ext other
      simp [and_assoc]
    rw [flatMap_cons, applyWrites_append, left]
    exact flushed

theorem protects_flush_crash (flushable : Flushable disk live order) (count : Nat) (torn : Bool) :
    ∃ left, Protects (crash disk count torn (order.flatMap writeBack))
      left latest := by
  induction order generalizing disk live count with
  | nil => exact ⟨live, by simpa [crash] using protects⟩
  | cons page rest ih =>
    have stored := flushable.stored page mem_cons_self
    have validLive := flushable.validLive page mem_cons_self
    rw [flatMap_cons, crash_append]
    split
    · exact protects_write_back_crash protects stored validLive count torn
    · exact ih (protects_write_back protects stored validLive) (flushable_rest flushable) _

theorem protects_hidden_slot (hidden : disk.pageCnt ≤ page.pageIndex) :
    Protects ((slot page).apply disk) live latest := by
  have below : ∀ other ∈ live, other.pageIndex < page.pageIndex :=
    fun other otherLive => (protects.stored other otherLive).2.trans_le hidden
  refine protects_slot protects subset_rfl (fun other otherLive => (below other otherLive).ne) ?_
    fun _ otherLive notLeft => absurd otherLive notLeft
  intro found held
  cases held
  exact ⟨rfl, fun _ => hidden, fun other otherLive lower =>
    absurd lower (below other otherLive).not_gt⟩

theorem protects_add {left : Set (DoubleWritePage Page)} {pageCnt : Nat} (leftLive : left ⊆ live)
    (valid : page.valid = true) (newKey : ∀ other ∈ left, other.key ≠ page.key)
    (free : ∀ other ∈ left, other.pageIndex ≠ page.pageIndex)
    (before : ∀ index < page.pageIndex, ∀ found, disk.slots index = .whole found →
      found.key ≠ page.key)
    (covered : page.pageIndex < pageCnt) (leftCovered : ∀ other ∈ left, other.pageIndex < pageCnt)
    (known : ∀ index < pageCnt, index ≠ page.pageIndex → index < disk.pageCnt)
    (dropped : ∀ other ∈ live, other ∉ left → other.pageIndex = page.pageIndex ∧
      other.key = page.key) :
    Protects { (slot page).apply disk with pageCnt := pageCnt } (insert page left)
      (update latest page.key page.page) where
  stored := by
    rintro other (rfl | otherLeft)
    · simp [apply, covered]
    · simp only [apply]
      rw [update_of_ne (free other otherLeft)]
      exact ⟨(protects.stored other (leftLive otherLeft)).1, leftCovered other otherLeft⟩
  current := by
    rintro other (rfl | otherLeft)
    · simp [valid]
    · rw [update_of_ne (newKey other otherLeft)]
      exact protects.current other (leftLive otherLeft)
  first := by
    intro other otherLeft index lower found slot
    simp only [apply, update_apply] at slot
    rcases otherLeft with rfl | otherLeft
    · rw [if_neg (Nat.ne_of_lt lower)] at slot
      exact before index lower found slot
    · split at slot
      · cases slot
        exact (newKey other otherLeft).symm
      · exact protects.first other (leftLive otherLeft) index lower found slot
  onlyLive := by
    intro index bound found slot foundValid
    simp only [apply, update_apply] at slot
    split at slot
    · cases slot
      exact .inl rfl
    · rename_i different
      have foundLive :=
        protects.onlyLive index (known index bound different) found slot foundValid
      by_contra gone
      have same := (dropped found foundLive fun foundLeft => gone (.inr foundLeft)).1
      exact different (protects.indexed index found slot ▸ same)
  clean := by
    intro key notLive
    have different : key ≠ page.key := fun same => notLive page (.inl rfl) same.symm
    rw [update_of_ne different]
    refine protects.clean key fun other otherLive sameKey => ?_
    by_cases otherLeft : other ∈ left
    · exact notLive other (.inr otherLeft) sameKey
    · exact different (sameKey ▸ (dropped other otherLive otherLeft).2)
  indexed := by
    intro index found slot
    simp only [apply, update_apply] at slot
    split at slot
    · rename_i same
      cases slot
      exact same.symm
    · exact protects.indexed index found slot

theorem protects_rewrite (pageLive : page ∈ live) (image : Page) :
    Protects ((slot { page with page := image }).apply disk)
      (insert { page with page := image } (live \ {page}))
      (update latest page.key image) := by
  refine @protects_add _ disk live latest { page with page := image } protects _ disk.pageCnt
    Set.sdiff_subset (protects.current page pageLive).1 ?_ ?_ (protects.first page pageLive)
    (protects.stored page pageLive).2 (fun other otherLeft => (protects.stored other otherLeft.1).2)
    (fun _ bound _ => bound) ?_
  · exact fun other otherLeft same =>
      otherLeft.2 (live_eq_of_key protects otherLeft.1 pageLive same)
  · exact fun other otherLeft same =>
      otherLeft.2 (live_eq_of_index protects otherLeft.1 pageLive same)
  · intro other otherLive notLeft
    obtain rfl : other = page := by
      by_contra different
      exact notLeft ⟨otherLive, different⟩
    exact ⟨rfl, rfl⟩

theorem loaded_flushable :
    Flushable disk live (loadPages disk).pages := by
  have stored : ∀ page ∈ (loadPages disk).pages, StoredAt disk page := by
    intro page member
    obtain ⟨index, bound, slot, -⟩ := (mem_loadPages disk page).mp member
    have same := protects.indexed index page slot
    exact ⟨same ▸ slot, same ▸ bound⟩
  constructor
  · exact stored
  · intro page member valid
    exact protects.onlyLive _ (stored page member).2 page (stored page member).1 valid
  · apply List.Nodup.map_on
    · intro page member other otherMember same
      have slot := (stored page member).1
      rw [same, (stored other otherMember).1] at slot
      exact (Stored.whole.inj slot).symm
    · exact (loadedBelow_keys_nodup disk disk.pageCnt).of_map _

theorem live_loaded :
    live ⊆ {page | page ∈ (loadPages disk).pages} := by
  intro page pageLive
  obtain ⟨slot, bound⟩ := protects.stored page pageLive
  exact (mem_loadPages disk page).mpr
    ⟨page.pageIndex, bound, slot, protects.first page pageLive⟩

theorem protects_recover :
    Protects (recover disk) ∅ latest := by
  have flushed := protects_flush protects (loaded_flushable protects)
  rwa [Set.sdiff_eq_empty.mpr (live_loaded protects)] at flushed

end

theorem flushable_perm {other : List (DoubleWritePage Page)} (perm : order.Perm other)
    (flushable : Flushable disk live other) : Flushable disk live order where
  stored page member := flushable.stored page (perm.mem_iff.mp member)
  validLive page member := flushable.validLive page (perm.mem_iff.mp member)
  distinct := (perm.map _).nodup_iff.mpr flushable.distinct

variable {attempts : List (RecoveryCrash Page)}

theorem protects_interrupt (protects : Protects disk live latest)
    (ordered : AttemptsOrdered disk attempts) :
    ∃ left, Protects (interrupt disk attempts) left latest := by
  induction attempts generalizing disk live with
  | nil => exact ⟨live, protects⟩
  | cons attempt rest ih =>
    have flushable := flushable_perm ordered.1 (loaded_flushable protects)
    obtain ⟨left, crashed⟩ :=
      protects_flush_crash protects flushable attempt.count attempt.torn
    exact ih crashed ordered.2

structure Sound (system : System Page) : Prop where
  protects : Protects system.disk {page | page ∈ system.buffer.pages} system.latest
  distinct : (system.buffer.pages.map pageIndex).Nodup
  covered : ∀ page ∈ system.buffer.pages, page.pageIndex < system.buffer.pageCnt
  header : (system.buffer.pages = [] ∧ system.buffer.pageCnt = 0) ∨
    system.buffer.pageCnt = system.disk.pageCnt

theorem sound_initial (data : DoubleWritePageKey → Page) : Sound (initial data) where
  protects := by constructor <;> simp [initial]
  distinct := nodup_nil
  covered := by simp [initial]
  header := .inl ⟨rfl, rfl⟩

variable {system : System Page}

theorem sound_flushable (sound : Sound system) :
    Flushable system.disk {page | page ∈ system.buffer.pages} system.buffer.pages where
  stored := sound.protects.stored
  validLive _ member _ := member
  distinct := sound.distinct

theorem size_le_pageCnt (sound : Sound system) :
    system.buffer.pages.length ≤ system.buffer.pageCnt := by
  have inRange : system.buffer.pages.map pageIndex ⊆
      range system.buffer.pageCnt := by
    intro index member
    obtain ⟨page, inPages, rfl⟩ := mem_map.mp member
    exact mem_range.mpr (sound.covered page inPages)
  have bound := (subperm_of_subset sound.distinct inRange).length_le
  rwa [length_map, length_range] at bound

theorem writeBack_pageCnt (disk : Disk Page) (pages : List (DoubleWritePage Page)) :
    (applyWrites disk (pages.flatMap writeBack)).pageCnt = disk.pageCnt := by
  induction pages generalizing disk with
  | nil => rfl
  | cons page rest ih =>
    have one : (applyWrites disk page.writeBack).pageCnt = disk.pageCnt := by
      cases valid : page.valid <;>
        simp [writeBack, valid, applyWrites, apply]
    rw [flatMap_cons, applyWrites_append, ih, one]

theorem flushed_all {pages : List (DoubleWritePage Page)} (perm : order.Perm pages) :
    ({page | page ∈ pages} : Set (DoubleWritePage Page)) \ {page | page ∈ order} = ∅ :=
  Set.sdiff_eq_empty.mpr fun _ member => perm.mem_iff.mpr member

theorem sound_flushed {pages : List (DoubleWritePage Page)}
    (protects : Protects disk {page | page ∈ pages} latest)
    (flushable : Flushable disk {page | page ∈ pages} pages) (perm : order.Perm pages) :
    Sound { buffer := (flushPage order).1, disk := applyWrites disk (flushPage order).2,
            latest := latest } where
  protects := by
    have flushed := protects_flush protects (flushable_perm perm flushable)
    rw [flushed_all perm] at flushed
    simpa [flushPage] using flushed
  distinct := nodup_nil
  covered := by simp [flushPage]
  header := .inl ⟨rfl, rfl⟩

theorem clear_writes (sound : Sound system) (bufferPoolId : Int) :
    (system.buffer.clearPages bufferPoolId).2 =
      (system.buffer.specPages bufferPoolId).flatMap writeBack := by
  apply flatMap_congr
  intro page member
  have inPages := ((mem_specPages _ _ page).mp member).1
  simp [writeBack, (sound.protects.current page inPages).1]

theorem clear_flushable (sound : Sound system) (bufferPoolId : Int) :
    Flushable system.disk {page | page ∈ system.buffer.pages}
      (system.buffer.specPages bufferPoolId) := by
  have perm := perm_insertionSort
    (fun a b : DoubleWritePage Page => a.key.pageNum ≤ b.key.pageNum)
    (system.buffer.pages.filter fun page => page.key.bufferPoolId = bufferPoolId)
  refine flushable_perm perm ⟨?_, ?_, ?_⟩
  · intro page member
    exact sound.protects.stored page (mem_of_mem_filter member)
  · intro page member _
    exact mem_of_mem_filter member
  · exact sound.distinct.sublist (filter_sublist.map _)

theorem sound_clear (sound : Sound system) (bufferPoolId : Int) :
    Sound { system with
              buffer := (system.buffer.clearPages bufferPoolId).1
              disk := applyWrites system.disk (system.buffer.clearPages bufferPoolId).2 } where
  protects := by
    have flushed := protects_flush sound.protects (clear_flushable sound bufferPoolId)
    have left : ({page | page ∈ system.buffer.pages} : Set (DoubleWritePage Page)) \
        {page | page ∈ system.buffer.specPages bufferPoolId} =
          {page | page ∈ (system.buffer.clearPages bufferPoolId).1.pages} := by
      ext page
      simp only [Set.mem_sdiff, Set.mem_ofPred_eq, mem_specPages, Buffer.clearPages,
        mem_filter, decide_eq_true_eq]
      tauto
    rw [clear_writes sound, ← left]
    exact flushed
  distinct := sound.distinct.sublist (filter_sublist.map _)
  covered := fun page member => sound.covered page (mem_of_mem_filter member)
  header := by
    rw [clear_writes sound, writeBack_pageCnt]
    rcases sound.header with ⟨empty, zero⟩ | same
    · exact .inl ⟨by simp [Buffer.clearPages, empty], zero⟩
    · exact .inr same

theorem pages_with_added (pages : List (DoubleWritePage Page)) (added : DoubleWritePage Page) :
    ({page | page ∈ pages ++ [added]} : Set (DoubleWritePage Page)) =
      insert added {page | page ∈ pages} := by
  ext page
  simp [or_comm]

section NewPage

variable {added : DoubleWritePage Page}

theorem slots_before (fresh : FreshSlot system added.key)
    (size : added.pageIndex = system.buffer.pages.length) :
    ∀ index < added.pageIndex, ∀ found, system.disk.slots index = .whole found →
      found.key ≠ added.key := by
  intro index lower found slot
  have held := fresh.2 index (size ▸ lower)
  rw [slot] at held
  simpa [Stored.holdsKey] using held

variable (sound : Sound system) (valid : added.valid = true)
  (size : added.pageIndex = system.buffer.pages.length)
  (absent : system.buffer.find added.key = none) (fresh : FreshSlot system added.key)

include sound valid size absent fresh

theorem protects_new_slot (covered : added.pageIndex < system.disk.pageCnt) :
    Protects ((slot added).apply system.disk)
      {page | page ∈ system.buffer.pages ++ [added]}
      (update system.latest added.key added.page) := by
  rw [pages_with_added]
  exact protects_add sound.protects subset_rfl valid (find_none absent)
    (size ▸ fresh.1) (slots_before fresh size) covered
    (fun other member => (sound.protects.stored other member).2) (fun _ bound _ => bound)
    fun _ member notLeft => absurd member notLeft

theorem protects_new_header (grows : system.buffer.pageCnt < added.pageIndex + 1) :
    Protects ((header (added.pageIndex + 1)).apply
        ((slot added).apply system.disk))
      {page | page ∈ system.buffer.pages ++ [added]}
      (update system.latest added.key added.page) := by
  rw [pages_with_added]
  refine protects_add sound.protects subset_rfl valid (find_none absent) (size ▸ fresh.1)
    (slots_before fresh size) (Nat.lt_succ_self _) ?_ ?_
    fun _ member notLeft => absurd member notLeft
  · intro other member
    exact (sound.covered other member).trans grows
  · intro index bound different
    have fits := size_le_pageCnt sound
    rcases sound.header with ⟨empty, -⟩ | same
    · rw [empty, length_nil] at size
      omega
    · omega

theorem protects_new_page :
    Protects (applyWrites system.disk (system.buffer.newPageWrites added))
      {page | page ∈ system.buffer.pages ++ [added]}
      (update system.latest added.key added.page) := by
  unfold Buffer.newPageWrites
  split
  · rename_i grows
    exact protects_new_header sound valid size absent fresh grows
  · rename_i fits
    have covered : added.pageIndex < system.disk.pageCnt := by
      rcases sound.header with ⟨-, zero⟩ | same <;> omega
    exact protects_new_slot sound valid size absent fresh covered

theorem protects_new_page_crash (count : Nat) (torn : Bool) :
    ∃ left latest, Protects (crash system.disk count torn (system.buffer.newPageWrites added))
        left latest ∧
      (latest = system.latest ∨
        latest = update system.latest added.key added.page) := by
  by_cases all : (system.buffer.newPageWrites added).length ≤ count
  · rw [crash_all _ _ _ _ all]
    exact ⟨_, _, protects_new_page sound valid size absent fresh, .inr rfl⟩
  match count, torn with
  | 0, false => exact ⟨_, _, sound.protects, .inl rfl⟩
  | 0, true => exact ⟨_, _, protects_tear sound.protects (size ▸ fresh.1), .inl rfl⟩
  | count + 1, torn =>
    -- the slot is written whole; a header that is not written counts as absent
    have slotOnly : crash system.disk (count + 1) torn (system.buffer.newPageWrites added) =
        (slot added).apply system.disk := by
      unfold Buffer.newPageWrites at all ⊢
      split at all
      · rename_i grows
        have zero : count = 0 := by
          simp only [length_cons, length_nil] at all
          omega
        cases torn <;> simp [crash, grows, zero, tear]
      · simp at all
    rw [slotOnly]
    by_cases covered : added.pageIndex < system.disk.pageCnt
    · exact ⟨_, _, protects_new_slot sound valid size absent fresh covered, .inr rfl⟩
    · exact ⟨_, _, protects_hidden_slot sound.protects (Nat.le_of_not_lt covered), .inl rfl⟩

theorem flushable_new_page :
    Flushable (applyWrites system.disk (system.buffer.newPageWrites added))
      {page | page ∈ system.buffer.pages ++ [added]} (system.buffer.pages ++ [added]) where
  stored := (protects_new_page sound valid size absent fresh).stored
  validLive _ member _ := member
  distinct := by
    rw [map_append, map_singleton]
    refine nodup_append.mpr ⟨sound.distinct, nodup_singleton _, ?_⟩
    intro index member other single
    obtain ⟨page, inPages, rfl⟩ := mem_map.mp member
    rw [mem_singleton.mp single, size]
    exact fresh.1 page inPages

theorem sound_new_page :
    Sound { buffer := { pages := system.buffer.pages ++ [added],
                        pageCnt := if system.buffer.pageCnt < added.pageIndex + 1
                          then added.pageIndex + 1 else system.buffer.pageCnt },
            disk := applyWrites system.disk (system.buffer.newPageWrites added),
            latest := update system.latest added.key added.page } where
  protects := protects_new_page sound valid size absent fresh
  distinct := (flushable_new_page sound valid size absent fresh).distinct
  covered := by
    intro page member
    rcases mem_append.mp member with inPages | single
    · have bound := sound.covered page inPages
      simp only
      split <;> omega
    · rw [mem_singleton.mp single]
      simp only
      split <;> omega
  header := by
    refine .inr ?_
    unfold Buffer.newPageWrites
    split
    · rfl
    · rcases sound.header with ⟨-, zero⟩ | same
      · omega
      · exact same

end NewPage

section BufferedPage

variable (sound : Sound system) (member : page ∈ system.buffer.pages) (image : Page)

include sound member

theorem pages_replaced :
    ({other | other ∈ replacePage system.buffer.pages { page with page := image }} :
        Set (DoubleWritePage Page)) =
      insert { page with page := image } ({other | other ∈ system.buffer.pages} \ {page}) := by
  ext other
  simp only [replacePage, Set.mem_ofPred_eq, List.mem_map, Set.mem_insert_iff, Set.mem_sdiff,
    Set.mem_singleton_iff]
  constructor
  · rintro ⟨old, oldMember, rfl⟩
    split
    · exact .inl rfl
    · rename_i different
      exact .inr ⟨oldMember, fun same => different (congrArg _ same)⟩
  · rintro (rfl | ⟨otherMember, different⟩)
    · exact ⟨page, member, if_pos rfl⟩
    · refine ⟨other, otherMember, if_neg fun same => different ?_⟩
      exact live_eq_of_key sound.protects otherMember member same

theorem replaced_indexes :
    (replacePage system.buffer.pages { page with page := image }).map pageIndex =
      system.buffer.pages.map pageIndex := by
  rw [replacePage, List.map_map]
  apply List.map_congr_left
  intro other otherMember
  simp only [comp_apply]
  split
  · rename_i same
    rw [live_eq_of_key sound.protects otherMember member same]
  · rfl

theorem sound_rewrite :
    Sound { buffer := { system.buffer with
              pages := replacePage system.buffer.pages { page with page := image } },
            disk := (slot { page with page := image }).apply system.disk,
            latest := update system.latest page.key image } where
  protects := by
    rw [pages_replaced sound member image]
    exact protects_rewrite sound.protects member image
  distinct := by
    rw [replaced_indexes sound member image]
    exact sound.distinct
  covered := by
    intro other otherMember
    have index : other.pageIndex ∈ system.buffer.pages.map pageIndex := by
      rw [← replaced_indexes sound member image]
      exact mem_map_of_mem otherMember
    obtain ⟨old, oldMember, same⟩ := mem_map.mp index
    exact same ▸ sound.covered old oldMember
  header := by
    rcases sound.header with ⟨empty, -⟩ | same
    · simp [empty] at member
    · exact .inr same

end BufferedPage

variable {maxPages : Nat}

theorem sound_addPage (sound : Sound system) {key : DoubleWritePageKey} {image : Page}
    (ordered : (Call.addPage key image order).Ordered system.buffer)
    (fresh : (Call.addPage key image order).TakesFreshSlot system) :
    Sound { buffer := (system.buffer.addPage maxPages key image order).1,
            disk := applyWrites system.disk (system.buffer.addPage maxPages key image order).2,
            latest := update system.latest key image } := by
  cases found : system.buffer.find key with
  | some page =>
    obtain ⟨member, rfl⟩ := find_some found
    rw [addPage_buffered found]
    exact sound_rewrite sound member image
  | none =>
    rw [addPage_new found]
    split
    · rw [applyWrites_append]
      exact sound_flushed (protects_new_page sound rfl rfl found (fresh found))
        (flushable_new_page sound rfl rfl found (fresh found)) (ordered found)
    · exact sound_new_page sound rfl rfl found (fresh found)

variable {call : Call Page}

section

variable (sound : Sound system)
include sound

theorem sound_call [DecidableEq Page] (maxPages : Nat) (ordered : call.Ordered system.buffer)
    (fresh : call.TakesFreshSlot system) :
    Sound { buffer := (system.buffer.call maxPages call).1,
            disk := applyWrites system.disk (system.buffer.call maxPages call).2,
            latest := call.complete system.latest } := by
  cases call with
  | addPage key image order => exact sound_addPage sound ordered fresh
  | flushPage order => exact sound_flushed sound.protects (sound_flushable sound) ordered
  | clearPages bufferPoolId => exact sound_clear sound bufferPoolId

theorem addPage_crash_protects {key : DoubleWritePageKey} {image : Page}
    (ordered : (Call.addPage key image order).Ordered system.buffer)
    (fresh : (Call.addPage key image order).TakesFreshSlot system) {count : Nat} {torn : Bool}
    (notTorn : ¬ ((system.buffer.find key).isSome = true ∧ count = 0 ∧ torn = true)) :
    ∃ left latest,
      Protects (crash system.disk count torn (system.buffer.addPage maxPages key image order).2)
        left latest ∧
      (latest = system.latest ∨ latest = update system.latest key image) := by
  cases found : system.buffer.find key with
  | some page =>
    obtain ⟨member, rfl⟩ := find_some found
    rw [addPage_buffered found]
    match count, torn with
    | 0, false => exact ⟨_, _, sound.protects, .inl rfl⟩
    | 0, true => simp [found] at notTorn
    | count + 1, torn =>
      have rewritten := protects_rewrite sound.protects member image
      exact ⟨_, _, by simpa [crash] using rewritten, .inr rfl⟩
  | none =>
    have crashed := @protects_new_page_crash Page system
      ⟨key, system.buffer.pages.length, true, image⟩ sound rfl rfl found (fresh found)
    rw [addPage_new found]
    split
    · rw [crash_append]
      split
      · exact crashed count torn
      · have flushable := flushable_perm (ordered found)
          (flushable_new_page sound rfl rfl found (fresh found))
        obtain ⟨left, protects⟩ := protects_flush_crash
          (protects_new_page sound rfl rfl found (fresh found)) flushable _ torn
        exact ⟨left, _, protects, .inr rfl⟩
    · exact crashed count torn

section

variable (ordered : call.Ordered system.buffer) {count : Nat} {torn : Bool}
  (safe : SlotSafe system (.crash call count torn attempts))
include ordered safe

theorem call_crash_protects :
    ∃ left latest, Protects (crashDisk maxPages system call count torn) left latest ∧
      (latest = system.latest ∨ latest = call.complete system.latest) := by
  cases call with
  | addPage key image order => exact addPage_crash_protects sound ordered safe.1 safe.2
  | flushPage order =>
    obtain ⟨left, protects⟩ := protects_flush_crash sound.protects
      (flushable_perm ordered (sound_flushable sound)) count torn
    exact ⟨left, _, protects, .inl rfl⟩
  | clearPages bufferPoolId =>
    obtain ⟨left, protects⟩ := protects_flush_crash sound.protects
      (clear_flushable sound bufferPoolId) count torn
    rw [← clear_writes sound] at protects
    exact ⟨left, _, protects, .inl rfl⟩

theorem crash_recovers
    (retries : AttemptsOrdered (crashDisk maxPages system call count torn) attempts) :
    ∃ latest, Protects (recoveredDisk maxPages system call count torn attempts) ∅ latest ∧
      (latest = system.latest ∨ latest = call.complete system.latest) := by
  obtain ⟨left, latest, protects, outcome⟩ := call_crash_protects sound ordered safe
  obtain ⟨remaining, interrupted⟩ := protects_interrupt protects retries
  exact ⟨latest, protects_recover interrupted, outcome⟩

end

theorem sound_step [DecidableEq Page] {next : System Page} {action : Action Page}
    (safe : SlotSafe system action) (stepped : step maxPages system action = some next) :
    Sound next := by
  cases action with
  | call call =>
    obtain ⟨ordered, ⟨⟩⟩ := ite_none_right_eq_some.mp stepped
    exact sound_call sound maxPages ordered safe
  | crash call count torn attempts =>
    obtain ⟨⟨ordered, retries⟩, ⟨⟩⟩ := ite_none_right_eq_some.mp stepped
    obtain ⟨latest, protects, -⟩ := crash_recovers sound ordered safe retries
    have recovered : ∀ key, (recoveredDisk maxPages system call count torn attempts).data key =
        .whole (latest key) := fun key => protects.clean key (by simp)
    constructor
    · simpa [recovered] using protects
    · exact nodup_nil
    · simp
    · exact .inl ⟨rfl, rfl⟩

end

theorem sound_reaches [DecidableEq Page] {data : DoubleWritePageKey → Page}
    (run : Reaches (step maxPages) SlotSafe (initial data) system) :
    Sound system :=
  reaches_invariant Sound (fun _ _ _ sound safe stepped => sound_step sound safe stepped)
    (sound_initial data) run

/-- Every data page holds the image last passed to a completed `add_page`, or
that of the call in progress at the crash. -/
def RecoversPages (maxPages : Nat) (system : System Page) (call : Call Page) (count : Nat)
    (torn : Bool) (attempts : List (RecoveryCrash Page)) : Prop :=
  ∀ key,
    (recoveredDisk maxPages system call count torn attempts).data key =
        .whole (system.latest key) ∨
      (recoveredDisk maxPages system call count torn attempts).data key =
        .whole (call.complete system.latest key)

theorem crash_recovers_pages [DecidableEq Page] (maxPages : Nat)
    (data : DoubleWritePageKey → Page) {system next : System Page}
    (run : Reaches (step maxPages) SlotSafe (initial data) system) (call : Call Page)
    (count : Nat) (torn : Bool) (attempts : List (RecoveryCrash Page))
    (safe : SlotSafe system (.crash call count torn attempts))
    (crashed : step maxPages system (.crash call count torn attempts) = some next) :
    RecoversPages maxPages system call count torn attempts := by
  simp only [step, ite_none_right_eq_some] at crashed
  obtain ⟨⟨ordered, retries⟩, -⟩ := crashed
  obtain ⟨latest, protects, outcome⟩ :=
    crash_recovers (sound_reaches run) ordered safe retries
  intro key
  have recovered : (recoveredDisk maxPages system call count torn attempts).data key =
      .whole (latest key) := protects.clean key (by simp)
  rcases outcome with before | after
  · exact .inl (by rw [recovered, before])
  · exact .inr (by rw [recovered, after])

def pageOne : DoubleWritePage Nat := ⟨⟨1, 0⟩, 0, true, 1⟩
def pageTwo : DoubleWritePage Nat := ⟨⟨2, 0⟩, 1, true, 2⟩

def addBoth : List (Action Nat) :=
  [.call (.addPage pageOne.key 1 [pageOne]), .call (.addPage pageTwo.key 2 [pageOne, pageTwo])]

theorem crash_recovers_pages_torn_flush :
    ∃ system next attempts,
      Reaches (step 16) SlotSafe (initial fun _ => 0) system ∧
      SlotSafe system (.crash (.flushPage [pageOne, pageTwo]) 2 true attempts) ∧
      step 16 system (.crash (.flushPage [pageOne, pageTwo]) 2 true attempts) = some next ∧
      (interrupt (crashDisk 16 system (.flushPage [pageOne, pageTwo]) 2 true) attempts).data
        pageTwo.key = .torn ∧
      RecoversPages 16 system (.flushPage [pageOne, pageTwo]) 2 true attempts := by
  have runs : (run (step 16) SlotSafe (initial fun _ => 0) addBoth).isSome = true := by decide
  have safe : SlotSafe ((run (step 16) SlotSafe (initial fun _ => 0) addBoth).get runs)
      (.crash (.flushPage [pageOne, pageTwo]) 2 true
        [⟨[pageOne.invalidate, pageTwo], 1, true⟩]) := ⟨trivial, fun torn => by cases torn.1⟩
  refine ⟨_, _, _, run_get_reaches runs, safe, rfl, rfl, ?_⟩
  exact crash_recovers_pages 16 _ (run_get_reaches runs) _ _ _ _ safe rfl

/-- The first file is closed and a second page of the other file is added: the
map has one page, so the new page is written over slot 1. -/
def closeAndAdd : List (Action Nat) :=
  addBoth ++ [.call (.clearPages 1), .call (.addPage ⟨2, 1⟩ 3 [pageTwo, ⟨⟨2, 1⟩, 1, true, 3⟩])]

/-- A page is lost without any torn write, and one is lost to a torn write of its
own slot. -/
theorem crash_loses_page :
    (∃ system next call, Reaches (step 16) (fun _ _ => True) (initial fun _ => 0) system ∧
      step 16 system (.crash call 0 false []) = some next ∧
      ¬ RecoversPages 16 system call 0 false []) ∧
    ∃ system next call, Reaches (step 16) (fun _ _ => True) (initial fun _ => 0) system ∧
      step 16 system (.crash call 0 true []) = some next ∧
      ¬ RecoversPages 16 system call 0 true [] := by
  constructor
  · have runs : (run (step 16) (fun _ _ => True) (initial fun _ => 0) closeAndAdd).isSome =
        true := by decide
    refine ⟨_, _, .clearPages 3, run_get_reaches runs, rfl, fun recovers => ?_⟩
    -- page 0 of the second file reads 0 although image 2 was added
    rcases recovers pageTwo.key with same | same <;> cases same
  · have runs : (run (step 16) (fun _ _ => True) (initial fun _ => 0) addBoth).isSome =
        true := by decide
    refine ⟨_, _, .addPage pageTwo.key 3 [], run_get_reaches runs, rfl, fun recovers => ?_⟩
    rcases recovers pageTwo.key with same | same <;> cases same

end CsuDbms.DoubleWriteBufferModel
