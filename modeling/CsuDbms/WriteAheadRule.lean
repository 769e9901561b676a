import CsuDbms.BufferPoolTransparency
import CsuDbms.DoubleWriteRecovery
import CsuDbms.LogHandlerModel

/-!
# The write-ahead rule

The buffer pool of `DiskBufferPoolModel` together with the log handler. A page
reaches the double-write buffer only through `flush_page_internal`, which first
waits for the log and then goes on whatever the wait returned. The wait ends
without success when the handler is not running.
-/

namespace CsuDbms.DiskBufferPoolModel

open DoubleWriteBufferModel LogHandlerModel List Option Function
open TransitionSystem

variable {Data : Type}

/-- What the calls of the pool do to the layers below it: only pages of the given kind are handed
to the double-write buffer. -/
inductive LayerMoves (kind : Page Data → Prop) (pool : Pool Data) : Pool Data → Prop
  | refl : LayerMoves kind pool pool
  | frames {next : Pool Data} (prior : LayerMoves kind pool next)
      (frames : AList fun _ : FrameId => Frame Data) (opened : List Int) :
      LayerMoves kind pool { next with frames := frames, opened := opened }
  | add {next : Pool Data} (prior : LayerMoves kind pool next) (config : Config)
      (walk : Iteration Data) (key : FrameId) {page : Page Data} (such : kind page) :
      LayerMoves kind pool (next.addPage config walk key page)
  | clear {next : Pool Data} (prior : LayerMoves kind pool next) (bufferPoolId : Int) :
      LayerMoves kind pool (next.perform (next.dblwr.clearPages bufferPoolId))
  | flush {next : Pool Data} (prior : LayerMoves kind pool next) (walk : Iteration Data) :
      LayerMoves kind pool (next.flushDoubleWrite walk)
  | reload {next : Pool Data} (prior : LayerMoves kind pool next) :
      LayerMoves kind pool { next with dblwr := loadPages next.disk }

/-- The pages in these frames are of the kind; frames are told by their key and dirty flag. -/
def FramesHold (frames : FrameId → Bool → Prop) (kind : Page Data → Prop) (pool : Pool Data) : Prop :=
  ∀ key frame, pool.frames.lookup key = some frame → frames key frame.dirty → kind frame.page

/-- So far only such pages were handed over, and the frames hold such pages still. -/
structure Moved (frames : FrameId → Bool → Prop) (kind : Page Data → Prop)
    (pool next : Pool Data) : Prop where
  moves : LayerMoves kind pool next
  holds : FramesHold frames kind next

variable {next pool : Pool Data} {kind : Page Data → Prop} {frames : FrameId → Bool → Prop}
  {key : FrameId} {frame : Frame Data}

namespace Moved

variable (config : Config) (walk : Iteration Data)

theorem setFrame (moved : Moved frames kind pool next)
    (such : frames key frame.dirty → kind frame.page) :
    Moved frames kind pool (next.setFrame key frame) where
  moves := moved.moves.frames _ next.opened
  holds other found lookup := by
    by_cases same : other = key
    · rw [same, Pool.setFrame, AList.lookup_insert] at lookup
      obtain rfl := some.inj lookup
      exact same ▸ such
    · rw [Pool.setFrame, AList.lookup_insert_ne same] at lookup
      exact moved.holds other found lookup

theorem freeFrame (moved : Moved frames kind pool next) :
    Moved frames kind pool (next.freeFrame key) where
  moves := moved.moves.frames _ next.opened
  holds other found lookup := by
    apply moved.holds other found
    by_cases same : other = key
    · rw [same, Pool.freeFrame, AList.lookup_erase] at lookup
      cases lookup
    · rwa [Pool.freeFrame, AList.lookup_erase_ne same] at lookup

theorem flushInternal (moved : Moved frames kind pool next) (such : kind frame.page) :
    Moved frames kind pool (next.flushPageInternal config walk key frame) :=
  setFrame ⟨moved.moves.add config walk key such, moved.holds⟩ fun _ => such

section Purge

variable (dirty : frames key true)
include dirty

theorem purgeFrame (moved : Moved frames kind pool next)
    (found : next.frames.lookup key = some frame) :
    Moved frames kind pool (next.purgeFrame config walk key frame) := by
  unfold Pool.purgeFrame
  split
  · rename_i changed
    have such := moved.holds key frame found (changed ▸ dirty)
    exact (moved.flushInternal config walk such).freeFrame
  · exact moved.freeFrame

theorem purgePage (moved : Moved frames kind pool next) :
    Moved frames kind pool (next.purgePage config walk key).1 := by
  unfold Pool.purgePage
  split
  · exact moved
  · rename_i found
    split
    · exact moved.purgeFrame config walk dirty found
    · exact moved

end Purge

theorem makeRoom {victims : List FrameId} (dirty : ∀ victim ∈ victims, frames victim true)
    (moved : Moved frames kind pool next) :
    Moved frames kind pool (next.makeRoom config walk victims).1 := by
  fun_induction Pool.makeRoom config walk victims next with
  | case1 | case2 | case3 | case5 => exact moved
  | case4 _ _ victim _ frame found _ ih =>
    obtain ⟨first, later⟩ := forall_mem_cons.mp dirty
    exact ih later (moved.purgeFrame config walk first found)

theorem fetchPage {victims : List FrameId} (dirty : ∀ victim ∈ victims, frames victim true)
    (moved : Moved frames kind pool next) (key : FrameId) :
    LayerMoves kind pool (next.fetchPage config walk victims key).1 := by
  unfold Pool.fetchPage
  split
  · exact moved.moves.frames _ _
  · have room := (moved.makeRoom config walk dirty).moves
    split
    · rename_i made
      rwa [made] at room
    · rename_i made
      rw [made] at room
      split
      · exact room
      · exact room.frames _ _

theorem getThisPage (format : PageFormat Data) {victims : List FrameId}
    (dirty : ∀ victim ∈ victims, frames victim true) (moved : Moved frames kind pool next)
    (key : FrameId) :
    LayerMoves kind pool (next.getThisPage format config walk victims key).1 := by
  unfold Pool.getThisPage
  split
  · exact moved.moves
  · split
    · exact moved.fetchPage config walk dirty key
    · exact moved.moves

theorem flushPage (always : ∀ flag, frames key flag) (moved : Moved frames kind pool next) :
    Moved frames kind pool (next.flushPage config walk key) := by
  unfold Pool.flushPage
  split
  · exact moved
  · rename_i found
    exact moved.flushInternal config walk (moved.holds key _ found (always _))

theorem flushPages {keys : List FrameId} (always : ∀ key ∈ keys, ∀ flag, frames key flag)
    (moved : Moved frames kind pool next) :
    Moved frames kind pool (keys.foldl (fun pool key => pool.flushPage config walk key) next) := by
  induction keys generalizing next with
  | nil => exact moved
  | cons key rest ih =>
    obtain ⟨first, later⟩ := forall_mem_cons.mp always
    exact ih later (moved.flushPage config walk first)

/-- The header page, which is stamped before a victim is purged, is not among the victims. The
new page is handed over with the number 0. -/
theorem allocatePage (format : PageFormat Data) {victims : List FrameId} (lsn : Int)
    {bufferPoolId : Int} (dirty : ∀ victim ∈ victims, frames victim true)
    (header : ∀ flag, ¬frames (Pool.headerKey bufferPoolId) flag) (blank : kind ⟨0, format.zero⟩)
    (holds : FramesHold frames kind pool) :
    LayerMoves kind pool (pool.allocatePage format config walk victims lsn bufferPoolId).1 := by
  have start : Moved frames kind pool pool := ⟨.refl, holds⟩
  unfold Pool.allocatePage
  cases found : pool.fileHeader format bufferPoolId with
  | none => exact .refl
  | some headerAndFrame =>
    obtain ⟨fileHeader, hdrFrame⟩ := headerAndFrame
    simp only
    cases free : fileHeader.freePage with
    | some pageNum =>
      have marked : Moved frames kind pool (pool.writeHeader format bufferPoolId hdrFrame
          (fileHeader.reuse pageNum) lsn) := start.setFrame fun listed => absurd listed (header _)
      have fetched := marked.getThisPage config walk format dirty ⟨bufferPoolId, pageNum⟩
      simp only
      split
      · rename_i got
        rwa [got] at fetched
      · rename_i got
        rw [got] at fetched
        split
        · exact fetched
        · exact fetched.frames _ _
    | none =>
      simp only
      split
      · exact .refl
      have stamped : Moved frames kind pool (pool.setFrame (Pool.headerKey bufferPoolId)
          { hdrFrame with page := { hdrFrame.page with lsn := lsn } }) :=
        start.setFrame fun listed => absurd listed (header _)
      split
      · exact (((stamped.moves.frames _ _).add config walk _ blank).frames _ _)
      · have room := (stamped.makeRoom config walk dirty).moves
        split
        · rename_i made
          rwa [made] at room
        · rename_i made
          rw [made] at room
          exact (((room.frames _ _).add config walk _ blank).frames _ _)

theorem openFile {victims : List FrameId} (dirty : ∀ victim ∈ victims, frames victim true)
    (holds : FramesHold frames kind pool) (bufferPoolId : Int) :
    LayerMoves kind pool (pool.openFile config walk victims bufferPoolId).1 := by
  have start : Moved frames kind pool pool := ⟨.refl, holds⟩
  have room : LayerMoves kind pool
      (pool.allocateFrame config walk victims (Pool.headerKey bufferPoolId)).1 := by
    unfold Pool.allocateFrame
    split
    · exact .refl
    · exact (start.makeRoom config walk dirty).moves
  unfold Pool.openFile
  simp only
  split
  · rename_i made
    rwa [made] at room
  · rename_i made
    rw [made] at room
    split
    · exact room
    · exact room.frames _ _

theorem purgePages {keys : List FrameId} (dirty : ∀ key ∈ keys, frames key true)
    (result : Pool Data × Bool) (moved : Moved frames kind pool result.1) :
    Moved frames kind pool (keys.foldl (Pool.purgeNext config walk) result).1 := by
  induction keys generalizing result with
  | nil => exact moved
  | cons key rest ih =>
    obtain ⟨first, later⟩ := forall_mem_cons.mp dirty
    apply ih later
    have purged := moved.purgePage config walk first
    unfold Pool.purgeNext
    split <;> rename_i made <;> rwa [made] at purged

theorem unpinHeader (moved : Moved frames kind pool next) (bufferPoolId : Int) :
    Moved frames kind pool (next.unpinHeader bufferPoolId) := by
  unfold Pool.unpinHeader
  split
  · rename_i found
    have such := moved.holds _ _ found
    exact moved.setFrame such
  · exact moved

theorem closeFile {bufferPoolId : Int}
    (dirty : ∀ key : FrameId, key.bufferPoolId = bufferPoolId → frames key true)
    (moved : Moved frames kind pool next) :
    Moved frames kind pool (next.closeFile config walk bufferPoolId) := by
  have purged : Moved frames kind pool
      ((next.unpinHeader bufferPoolId).purgeAllPages config walk bufferPoolId).1 := by
    refine purgePages config walk (fun key member => dirty key ?_) _ (moved.unpinHeader bufferPoolId)
    have listed := (walk.framesPerm _).mem_iff.mp member
    exact of_decide_eq_true (mem_filter.mp listed).2
  unfold Pool.closeFile
  simp only
  split
  · rename_i made
    rw [made] at purged
    exact ⟨(purged.moves.clear bufferPoolId).frames _ _, purged.holds⟩
  · rename_i made
    rw [made] at purged
    exact ⟨purged.moves.frames _ _, purged.holds⟩

theorem closeFiles (dirty : ∀ key, frames key true) (files : List Int)
    (moved : Moved frames kind pool next) :
    Moved frames kind pool (files.foldl (fun pool id => pool.closeFile config walk id) next) := by
  induction files generalizing next with
  | nil => exact moved
  | cons file rest ih => exact ih (moved.closeFile config walk fun key _ => dirty key)

theorem restart (holds : FramesHold frames kind pool) (dirty : ∀ key, frames key true) :
    LayerMoves kind pool (pool.restart config walk) :=
  ((((closeFiles config walk dirty (walk.files pool.opened) ⟨.refl, holds⟩).moves).flush
    walk).reload).frames ∅ []

end Moved

variable {format : PageFormat Data} {config : Config} {action : Action Data}

/-- The frames whose pages a call can hand over: the two that flush take every frame, the others
write a dirty one before they give it up. -/
def Action.flushes : Action Data → FrameId → Bool → Prop
  | .getThisPage _ victims _, key, dirty => key ∈ victims ∧ dirty = true
  | .allocatePage _ victims _ _, key, dirty => key ∈ victims ∧ dirty = true
  | .openFile _ victims _, key, dirty => key ∈ victims ∧ dirty = true
  | .flushPage _ flushed, key, _ => key = flushed
  | .flushAllPages _ bufferPoolId, key, _ => key.bufferPoolId = bufferPoolId
  | .purgePage _ purged, key, dirty => key = purged ∧ dirty = true
  | .closeFile _ bufferPoolId, key, dirty => key.bufferPoolId = bufferPoolId ∧ dirty = true
  | .restart _, _, dirty => dirty = true
  | _, _, _ => False

theorem layerMoves_step {system next : System Data} (blank : kind ⟨0, format.zero⟩)
    (holds : FramesHold action.flushes kind system.pool)
    (stepped : step format config system action = some next) :
    LayerMoves kind system.pool next.pool := by
  have start : Moved action.flushes kind system.pool system.pool := ⟨.refl, holds⟩
  cases action with
  | getThisPage walk victims key =>
    obtain ⟨-, ⟨⟩⟩ := ite_none_right_eq_some.mp stepped
    exact start.getThisPage config walk format (fun _ listed => ⟨listed, rfl⟩) key
  | modify key page | unpin key =>
    obtain ⟨frame, -, rfl⟩ := map_eq_some_iff.mp stepped
    exact LayerMoves.refl.frames _ _
  | flushPage walk key =>
    cases stepped
    exact (start.flushPage config walk fun _ => rfl).moves
  | flushAllPages walk bufferPoolId =>
    cases stepped
    refine (start.flushPages config walk fun key member _ => ?_).moves
    have listed := (walk.framesPerm _).mem_iff.mp member
    have inFile : key.bufferPoolId = bufferPoolId := by simpa using (mem_filter.mp listed).2
    exact inFile
  | purgePage walk key =>
    cases stepped
    exact (start.purgePage config walk ⟨rfl, rfl⟩).moves
  | allocatePage walk victims lsn bufferPoolId =>
    obtain ⟨⟨-, pinned⟩, ⟨⟩⟩ := ite_none_right_eq_some.mp stepped
    exact Moved.allocatePage config walk format lsn (fun _ listed => ⟨listed, rfl⟩)
      (fun _ listed => pinned listed.1) blank holds
  | disposePage lsn key =>
    obtain ⟨-, ⟨⟩⟩ := ite_none_right_eq_some.mp stepped
    simp only
    unfold Pool.disposePage
    repeat' split
    all_goals first | exact .refl | exact LayerMoves.refl.frames _ _
  | openFile walk victims bufferPoolId =>
    obtain ⟨-, ⟨⟩⟩ := ite_none_left_eq_some.mp stepped
    exact Moved.openFile config walk (fun _ listed => ⟨listed, rfl⟩) holds bufferPoolId
  | closeFile walk bufferPoolId =>
    cases stepped
    exact (start.closeFile config walk fun _ inFile => ⟨inFile, rfl⟩).moves
  | flushDoubleWrite walk =>
    cases stepped
    exact LayerMoves.refl.flush walk
  | restart walk =>
    cases stepped
    exact Moved.restart config walk holds fun _ => rfl

def WriteBelow (lsn : Int) : FileWrite (Page Data) → Prop
  | .slot page => page.page.lsn ≤ lsn
  | .header _ => True
  | .data _ page => page.lsn ≤ lsn

structure Below (lsn : Int) (pool : Pool Data) : Prop where
  entries : ∀ page ∈ pool.dblwr.pages, page.page.lsn ≤ lsn
  slots : ∀ index page, pool.disk.slots index = .whole page → page.page.lsn ≤ lsn

theorem below_mono {lower upper : Int} (le : lower ≤ upper) (below : Below lower pool) :
    Below upper pool where
  entries page member := (below.entries page member).trans le
  slots index page slot := (below.slots index page slot).trans le

variable {lsn : Int} {disk : Disk (Page Data)} {writes : List (FileWrite (Page Data))}

theorem writeBack_below {pages : List (DoubleWritePage (Page Data))}
    (entries : ∀ page ∈ pages, page.page.lsn ≤ lsn) :
    ∀ write ∈ pages.flatMap DoubleWritePage.writeBack, WriteBelow lsn write := by
  intro write member
  obtain ⟨page, inPages, issued⟩ := mem_flatMap.mp member
  have bound := entries page inPages
  unfold DoubleWritePage.writeBack at issued
  cases valid : page.valid <;> simp only [valid, mem_append, mem_singleton] at issued
  · rcases issued with none | rfl
    · simp at none
    · exact bound
  · rcases issued with data | rfl
    · simp only [if_true, mem_singleton] at data
      exact data ▸ bound
    · exact bound

theorem clear_below {buffer : Buffer (Page Data)} (bufferPoolId : Int)
    (entries : ∀ page ∈ buffer.pages, page.page.lsn ≤ lsn) :
    ∀ write ∈ (buffer.clearPages bufferPoolId).2, WriteBelow lsn write := by
  intro write member
  obtain ⟨page, inPages, issued⟩ := mem_flatMap.mp member
  have bound := entries page ((mem_specPages buffer bufferPoolId page).mp inPages).1
  simp only [mem_cons, not_mem_nil, or_false] at issued
  rcases issued with rfl | rfl <;> exact bound

theorem addPage_below {buffer : Buffer (Page Data)} {maxPages : Nat}
    {key : FrameId} {image : Page Data} {order : List (DoubleWritePage (Page Data))}
    (perm : order.Perm (buffer.pages ++ [⟨key, buffer.pages.length, true, image⟩]))
    (entries : ∀ page ∈ buffer.pages, page.page.lsn ≤ lsn) (bound : image.lsn ≤ lsn) :
    (∀ page ∈ (buffer.addPage maxPages key image order).1.pages, page.page.lsn ≤ lsn) ∧
      ∀ write ∈ (buffer.addPage maxPages key image order).2, WriteBelow lsn write := by
  cases found : buffer.find key with
  | some page =>
    rw [addPage_buffered found]
    constructor
    · intro other member
      obtain ⟨old, oldMember, rfl⟩ := mem_map.mp member
      split
      · exact bound
      · exact entries old oldMember
    · intro write member
      rw [mem_singleton.mp member]
      exact bound
  | none =>
    have withAdded : ∀ page ∈ buffer.pages ++ [⟨key, buffer.pages.length, true, image⟩],
        page.page.lsn ≤ lsn :=
      forall_mem_append.mpr ⟨entries, forall_mem_singleton.mpr bound⟩
    have newWrites : ∀ write ∈ buffer.newPageWrites ⟨key, buffer.pages.length, true, image⟩,
        WriteBelow lsn write := by
      refine forall_mem_cons.mpr ⟨bound, ?_⟩
      split
      · exact forall_mem_singleton.mpr trivial
      · exact forall_mem_nil _
    rw [addPage_new found]
    split
    · refine ⟨by simp [flushPage], forall_mem_append.mpr ⟨newWrites, ?_⟩⟩
      exact writeBack_below fun page inOrder => withAdded page (perm.mem_iff.mp inOrder)
    · exact ⟨withAdded, newWrites⟩

structure Wrote (pool next : Pool Data) (images : List (Page Data))
    (writes : List (FileWrite (Page Data))) : Prop where
  handed : next.handed = pool.handed ++ images
  issued : next.issued = pool.issued ++ writes

theorem wrote_perform {middle : Pool Data} {images : List (Page Data)}
    (wrote : Wrote pool middle images writes)
    (result : Buffer (Page Data) × List (FileWrite (Page Data))) :
    Wrote pool (middle.perform result) images (writes ++ result.2) where
  handed := wrote.handed
  issued := by rw [Pool.perform, wrote.issued, append_assoc]

theorem below_perform {middle : Pool Data} (below : Below lsn middle)
    {result : Buffer (Page Data) × List (FileWrite (Page Data))}
    (entries : ∀ page ∈ result.1.pages, page.page.lsn ≤ lsn)
    (new : ∀ write ∈ result.2, WriteBelow lsn write) : Below lsn (middle.perform result) where
  entries := entries
  slots := slots_after below.slots fun page => new (.slot page)

/-- If the pages handed over are on the safe side of the log, so is everything
that is written. -/
theorem layerMoves_below (moves : LayerMoves kind pool next) (below : Below lsn pool) :
    ∃ images writes, Wrote pool next images writes ∧ (∀ image ∈ images, kind image) ∧
      ((∀ image ∈ images, image.lsn ≤ lsn) →
        Below lsn next ∧ ∀ write ∈ writes, WriteBelow lsn write) := by
  induction moves with
  | refl => exact ⟨[], [], ⟨by simp, by simp⟩, by simp, fun _ => ⟨below, by simp⟩⟩
  | frames _ frames opened ih =>
    obtain ⟨images, writes, wrote, such, safe⟩ := ih
    refine ⟨images, writes, ⟨wrote.handed, wrote.issued⟩, such, fun bounds => ?_⟩
    obtain ⟨after, written⟩ := safe bounds
    exact ⟨⟨after.entries, after.slots⟩, written⟩
  | @add middle _ config walk key page added ih =>
    obtain ⟨images, writes, wrote, such, safe⟩ := ih
    have performed := wrote_perform wrote (middle.dblwr.addPage config.maxPages key page
      (walk.pages (some key)
        (middle.dblwr.pages ++ [⟨key, middle.dblwr.pages.length, true, page⟩])))
    refine ⟨images ++ [page], _, ⟨?_, performed.issued⟩,
      forall_mem_append.mpr ⟨such, forall_mem_singleton.mpr added⟩, fun bounds => ?_⟩
    · simp only [Pool.addPage, wrote.handed, append_assoc]
    · obtain ⟨earlier, last⟩ := forall_mem_append.mp bounds
      obtain ⟨after, written⟩ := safe earlier
      have added := @addPage_below _ lsn middle.dblwr config.maxPages key page _
        (walk.pagesPerm (some key) _) after.entries (last page mem_cons_self)
      have moved := below_perform after added.1 added.2
      exact ⟨⟨moved.entries, moved.slots⟩, forall_mem_append.mpr ⟨written, added.2⟩⟩
  | @clear middle _ bufferPoolId ih =>
    obtain ⟨images, writes, wrote, such, safe⟩ := ih
    refine ⟨images, _, wrote_perform wrote _, such, fun bounds => ?_⟩
    obtain ⟨after, written⟩ := safe bounds
    have cleared := clear_below bufferPoolId after.entries
    refine ⟨below_perform after (fun page member => ?_) cleared,
      forall_mem_append.mpr ⟨written, cleared⟩⟩
    exact after.entries page (mem_of_mem_filter member)
  | @flush middle _ walk ih =>
    obtain ⟨images, writes, wrote, such, safe⟩ := ih
    refine ⟨images, _, wrote_perform wrote _, such, fun bounds => ?_⟩
    obtain ⟨after, written⟩ := safe bounds
    have flushed : ∀ write ∈ (flushPage
        (walk.pages none middle.dblwr.pages)).2, WriteBelow lsn write :=
      writeBack_below fun page member =>
        after.entries page ((walk.pagesPerm none _).mem_iff.mp member)
    exact ⟨below_perform after (by simp [flushPage]) flushed,
      forall_mem_append.mpr ⟨written, flushed⟩⟩
  | @reload middle _ ih =>
    obtain ⟨images, writes, wrote, such, safe⟩ := ih
    refine ⟨images, writes, ⟨wrote.handed, wrote.issued⟩, such, fun bounds => ?_⟩
    obtain ⟨after, written⟩ := safe bounds
    refine ⟨⟨fun page member => ?_, after.slots⟩, written⟩
    obtain ⟨index, -, slot, -⟩ := (mem_loadPages _ page).mp member
    exact after.slots index page slot

structure WalSystem (Data : Type) where
  system : System Data
  log : LogHandler

inductive WalAction (Data : Type) where
  | pool (action : Action Data)
  | append
  | flushEntry
  | replay
  | start
  | stop
  | awaitTermination
  /-- the process ends inside the given call of the pool and comes up again -/
  | crash (action : Action Data) (count : Nat) (torn : Bool)

def handedBy (system next : System Data) : List (Page Data) :=
  next.pool.handed.drop system.pool.handed.length

def issuedBy (system next : System Data) : List (FileWrite (Page Data)) :=
  next.pool.issued.drop system.pool.issued.length

/-- A call of the pool gets through once every wait of `flush_page_internal` has
ended. What the wait returned is ignored there. -/
def poolStep (format : PageFormat Data) (config : Config) (wal : WalSystem Data)
    (action : Action Data) : Option (System Data) :=
  (step format config wal.system action).filter fun next =>
    (handedBy wal.system next).all fun page => (wal.log.waitLsn page.lsn).isSome

def crashedPool (system next : System Data) (count : Nat) (torn : Bool) : Pool Data :=
  let disk := crash system.pool.disk count torn (issuedBy system next)
  { system.pool with frames := ∅, dblwr := loadPages disk, disk := disk, opened := [] }

def walStep (format : PageFormat Data) (config : Config) (wal : WalSystem Data) :
    WalAction Data → Option (WalSystem Data)
  | .pool action => (poolStep format config wal action).map fun next => { wal with system := next }
  | .append => some { wal with log := wal.log.append }
  | .flushEntry => wal.log.flushEntry.map fun log => { wal with log := log }
  | .replay => some { wal with log := wal.log.replay }
  | .start => some { wal with log := wal.log.start }
  | .stop => some { wal with log := wal.log.stop }
  | .awaitTermination => wal.log.awaitTermination.map fun log => { wal with log := log }
  | .crash action count torn => (poolStep format config wal action).map fun next =>
    { system := { wal.system with pool := crashedPool wal.system next count torn }
      log := .create wal.log.fileLsn }

/-- The handler is running, or the pages in the frames that the call can flush are already covered
by the log files. -/
def Covered (wal : WalSystem Data) (action : Action Data) : Prop :=
  wal.log.running = true ∨ ∀ entry ∈ wal.system.pool.frames.entries,
    action.flushes entry.1 entry.2.dirty → entry.2.page.lsn ≤ wal.log.fileLsn

def FlushesCovered (wal : WalSystem Data) : WalAction Data → Prop
  | .pool action | .crash action _ _ => Covered wal action
  | _ => True

structure WalSafe (wal : WalSystem Data) : Prop where
  below : Below wal.log.fileLsn wal.system.pool
  counter : wal.log.flushedLsn ≤ wal.log.fileLsn
  nonneg : 0 ≤ wal.log.fileLsn

variable {wal : WalSystem Data}

theorem poolStep_some {next : System Data}
    (stepped : poolStep format config wal action = some next) :
    step format config wal.system action = some next ∧
      ∀ page ∈ handedBy wal.system next, (wal.log.waitLsn page.lsn).isSome = true := by
  obtain ⟨taken, waited⟩ := filter_eq_some_iff.mp stepped
  exact ⟨taken, all_eq_true.mp waited⟩

theorem poolStep_rule (safe : WalSafe wal) (covered : Covered wal action) {next : System Data}
    (stepped : poolStep format config wal action = some next) :
    Below wal.log.fileLsn next.pool ∧
      (∀ image ∈ handedBy wal.system next, image.lsn ≤ wal.log.fileLsn) ∧
      ∀ write ∈ issuedBy wal.system next, WriteBelow wal.log.fileLsn write := by
  obtain ⟨taken, waited⟩ := poolStep_some stepped
  have moves : LayerMoves (fun page => wal.log.running = true ∨ page.lsn ≤ wal.log.fileLsn)
      wal.system.pool next.pool := by
    refine layerMoves_step (.inr safe.nonneg) (fun key frame found flushed => ?_) taken
    exact covered.imp_right fun frames => frames ⟨key, frame⟩ (AList.mem_lookup_iff.mp found) flushed
  obtain ⟨images, writes, wrote, such, written⟩ := layerMoves_below moves safe.below
  have handed : handedBy wal.system next = images := by simp [handedBy, wrote.handed]
  have issued : issuedBy wal.system next = writes := by simp [issuedBy, wrote.issued]
  rw [handed] at waited ⊢
  rw [issued]
  have bounds : ∀ image ∈ images, image.lsn ≤ wal.log.fileLsn := by
    intro image member
    rcases such image member with running | bound
    · obtain ⟨result, ended⟩ := isSome_iff_exists.mp (waited image member)
      exact (LogHandler.le_flushedLsn_of_wait ended running).trans safe.counter
    · exact bound
  obtain ⟨after, writesBelow⟩ := written bounds
  exact ⟨after, bounds, writesBelow⟩

theorem tear_slot {write : FileWrite (Page Data)} {index : Nat}
    {page : DoubleWritePage (Page Data)} (slot : (write.tear disk).slots index = .whole page) :
    disk.slots index = .whole page := by
  cases write with
  | slot written =>
    simp only [FileWrite.tear, update_apply] at slot
    split at slot
    · cases slot
    · exact slot
  | header pageCnt => exact slot
  | data key image => exact slot

theorem crash_slots_below (count : Nat) (torn : Bool)
    (slots : ∀ index page, disk.slots index = .whole page → page.page.lsn ≤ lsn)
    (below : ∀ write ∈ writes, WriteBelow lsn write) :
    ∀ index page, (crash disk count torn writes).slots index =
      .whole page → page.page.lsn ≤ lsn := by
  induction writes generalizing disk count with
  | nil => simpa [crash] using slots
  | cons write rest ih =>
    obtain ⟨first, later⟩ := forall_mem_cons.mp below
    cases count with
    | zero =>
      intro index page slot
      cases torn with
      | false => exact slots index page slot
      | true => exact slots index page (tear_slot slot)
    | succ count =>
      have one := slots_after slots fun page (member : .slot page ∈ [write]) =>
        (mem_singleton.mp member ▸ first : WriteBelow lsn (.slot page))
      exact ih count one later

theorem walSafe_step {next : WalSystem Data}
    {action : WalAction Data} (safe : WalSafe wal)
    (covered : FlushesCovered wal action)
    (stepped : walStep format config wal action = some next) : WalSafe next := by
  cases action with
  | pool action =>
    obtain ⟨after, taken, rfl⟩ := map_eq_some_iff.mp stepped
    exact ⟨(poolStep_rule safe covered taken).1, safe.counter, safe.nonneg⟩
  | append =>
    cases stepped
    exact ⟨safe.below, safe.counter, safe.nonneg⟩
  | flushEntry =>
    obtain ⟨log, flushed, rfl⟩ := map_eq_some_iff.mp stepped
    unfold LogHandler.flushEntry at flushed
    split at flushed
    · split at flushed
      · cases flushed
      · cases flushed
        exact ⟨below_mono (Int.le_max_left _ _) safe.below, Int.le_max_right _ _,
          Int.le_trans safe.nonneg (Int.le_max_left _ _)⟩
    · cases flushed
  | replay =>
    cases stepped
    exact ⟨safe.below, Int.le_refl _, safe.nonneg⟩
  | start =>
    cases stepped
    unfold LogHandler.start
    split
    · exact safe
    · exact ⟨safe.below, safe.counter, safe.nonneg⟩
  | stop =>
    cases stepped
    unfold LogHandler.stop
    split
    · exact ⟨safe.below, safe.counter, safe.nonneg⟩
    · exact safe
  | awaitTermination =>
    obtain ⟨log, ended, rfl⟩ := map_eq_some_iff.mp stepped
    obtain ⟨-, ⟨⟩⟩ := ite_none_right_eq_some.mp ended
    exact ⟨safe.below, safe.counter, safe.nonneg⟩
  | crash action count torn =>
    obtain ⟨after, taken, rfl⟩ := map_eq_some_iff.mp stepped
    obtain ⟨-, -, written⟩ := poolStep_rule safe covered taken
    have slots := crash_slots_below count torn safe.below.slots written
    refine ⟨⟨fun page member => ?_, slots⟩, safe.nonneg, safe.nonneg⟩
    obtain ⟨index, -, slot, -⟩ := (mem_loadPages _ page).mp member
    exact slots index page slot

def WalSystem.initial (data : FrameId → Page Data) : WalSystem Data where
  system := .initial data
  log := .create 0

theorem walSafe_reaches {data : FrameId → Page Data}
    (run : Reaches (walStep format config) FlushesCovered (.initial data) wal) :
    WalSafe wal := by
  refine reaches_invariant WalSafe
    (fun _ _ _ safe covered stepped => walSafe_step safe covered stepped) ?_ run
  exact ⟨⟨by simp [WalSystem.initial, System.initial], by simp [WalSystem.initial, System.initial]⟩,
    Int.le_refl 0, Int.le_refl 0⟩

/-- In every call, the pages handed over and everything written to the
double-write file and the data files are covered by the log files, if the handler is running or
the frames that can be flushed are covered. -/
theorem written_pages_are_logged (format : PageFormat Data) (config : Config)
    (data : FrameId → Page Data) {wal : WalSystem Data}
    (run : Reaches (walStep format config) FlushesCovered (.initial data) wal)
    (action : Action Data) (covered : Covered wal action) {next : System Data}
    (stepped : poolStep format config wal action = some next) :
    (∀ image ∈ handedBy wal.system next, image.lsn ≤ wal.log.fileLsn) ∧
      ∀ write ∈ issuedBy wal.system next, WriteBelow wal.log.fileLsn write :=
  (poolStep_rule (walSafe_reaches run) covered stepped).2

instance (action : Action Data) (key : FrameId) (dirty : Bool) :
    Decidable (action.flushes key dirty) := by
  apply @Action.casesOn Data (fun action => Decidable (action.flushes key dirty)) action <;>
    intros <;> dsimp only [Action.flushes] <;> infer_instance

instance (wal : WalSystem Data) (action : WalAction Data) :
    Decidable (FlushesCovered wal action) := by
  cases action <;> dsimp only [FlushesCovered, Covered] <;> infer_instance

def changePage : List (WalAction Nat) :=
  [.replay, .start, .pool (.openFile .listed [] 1), .pool (.getThisPage .listed [] ⟨1, 2⟩), .append,
    .pool (.modify ⟨1, 2⟩ ⟨1, 5⟩), .pool (.unpin ⟨1, 2⟩)]

def threePagesWal : WalSystem Nat where
  system := threePages
  log := .create 0

/-- Once the entry is in the log file the page is purged, also with the handler stopped, and its
image goes to slot 0. -/
theorem written_pages_are_logged_after_flush :
    ∃ wal next, Reaches (walStep countFormat smallConfig) FlushesCovered threePagesWal wal ∧
      poolStep countFormat smallConfig wal (.purgePage .listed ⟨1, 2⟩) = some next ∧
      handedBy wal.system next = [⟨1, 5⟩] ∧ wal.log.running = false ∧
      (∀ image ∈ handedBy wal.system next, image.lsn ≤ wal.log.fileLsn) ∧
      ∀ write ∈ issuedBy wal.system next, WriteBelow wal.log.fileLsn write := by
  have runs : (run (walStep countFormat smallConfig) FlushesCovered
      threePagesWal (changePage ++ [.flushEntry, .stop])).isSome = true := by decide
  exact ⟨_, _, run_get_reaches runs, rfl, rfl, rfl,
    written_pages_are_logged countFormat smallConfig _ (run_get_reaches runs)
      (.purgePage .listed ⟨1, 2⟩) (.inr (by decide +revert)) rfl⟩

/-- The handler is stopped before it wrote the entry; the page is handed over all
the same. -/
theorem written_page_not_logged :
    ∃ wal next,
      Reaches (walStep countFormat smallConfig) (fun _ _ => True) threePagesWal wal ∧
      poolStep countFormat smallConfig wal (.purgePage .listed ⟨1, 2⟩) = some next ∧
      handedBy wal.system next = [⟨1, 5⟩] ∧ wal.log.fileLsn = 0 ∧ wal.log.flushedLsn = 0 ∧
      ¬ ∀ image ∈ handedBy wal.system next, image.lsn ≤ wal.log.fileLsn := by
  have runs : (run (walStep countFormat smallConfig) (fun _ _ => True) threePagesWal
      (changePage ++ [.stop])).isSome = true := by decide
  refine ⟨_, _, run_get_reaches runs, rfl, rfl, rfl, rfl, fun bounds => ?_⟩
  have bound : (1 : Int) ≤ 0 := bounds ⟨1, 5⟩ mem_cons_self
  exact absurd bound (by decide)

end CsuDbms.DiskBufferPoolModel
