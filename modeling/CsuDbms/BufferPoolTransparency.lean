import CsuDbms.DiskBufferPoolModel
import CsuDbms.DoubleWriteContents
import CsuDbms.TransitionSystem

/-!
# Transparency of the buffer pool

A page is in a frame, in the double-write map and in its data file at once. `Copy` relates the three
to the bytes last written: a frame has them, and a clean frame or none means that the layers below
have them. Every call keeps this as long as the entries that `load_pages` brings back are not used:
they are marked invalid, since their images were written back, but `read_page` still serves them,
`add_page` puts a new image into them that a flush then skips, and `clear_pages` writes them over
the data file.
-/

namespace CsuDbms.DiskBufferPoolModel

open BufferPoolHeaderModel DoubleWriteBufferModel TransitionSystem List Option Function Pool

variable {Data : Type}

/-- What a user of the page sees. The stamp of page 0 is the pool's own and is
left out: `allocate_page` sets it before it knows whether it will succeed. -/
def bytes (key : FrameId) (page : Page Data) : Data × Int :=
  (page.data, if key.pageNum = 0 then 0 else page.lsn)

def Holds (key : FrameId) (stored : Stored (Page Data)) (written : Data × Int) : Prop :=
  ∃ page, stored = .whole page ∧ bytes key page = written

def Copy (key : FrameId) (stored : Stored (Page Data)) (written : Data × Int) :
    Option (Frame Data) → Prop
  | some frame => bytes key frame.page = written ∧ (frame.dirty = false → Holds key stored written)
  | none => Holds key stored written

def Pool.lower (pool : Pool Data) (key : FrameId) : Stored (Page Data) :=
  lowerPage pool.dblwr pool.disk key

structure Transparent (pool : Pool Data) (latest : FrameId → Option (Data × Int)) : Prop where
  tidy : Tidy pool.dblwr pool.disk
  valid : ∀ page ∈ pool.dblwr.pages, page.valid = true → page.key.bufferPoolId ∈ pool.opened
  frames : ∀ key frame, pool.frames.lookup key = some frame → key.bufferPoolId ∈ pool.opened
  copies : ∀ key written, latest key = some written →
    Copy key (pool.lower key) written (pool.frames.lookup key)

abbrev Pool.Carries (pool next : Pool Data) : Prop :=
  DoubleWriteBufferModel.Carries pool.dblwr pool.disk next.dblwr next.disk
    (fun key => key.bufferPoolId ∈ pool.opened)

abbrev Pool.StaleKept (pool next : Pool Data) : Prop :=
  DoubleWriteBufferModel.StaleKept pool.dblwr pool.disk next.dblwr next.disk

variable {pool next : Pool Data} {latest : FrameId → Option (Data × Int)}

theorem valid_carried (transparent : Transparent pool latest) (carries : pool.Carries next) :
    ∀ page ∈ next.dblwr.pages, page.valid = true → page.key.bufferPoolId ∈ pool.opened := by
  intro page member valid
  rcases carries.valid page member valid with opened | ⟨old, oldMember, oldValid, sameKey⟩
  · exact opened
  · exact sameKey ▸ transparent.valid old oldMember oldValid

variable {key : FrameId} {frame : Frame Data}

theorem copy_resident (transparent : Transparent pool latest)
    (found : pool.frames.lookup key = some frame) {written : Data × Int}
    (wanted : latest key = some written) : Copy key (pool.lower key) written (some frame) :=
  found ▸ transparent.copies key written wanted

theorem lookup_erase_some {frames : AList fun _ : FrameId => Frame Data} {other : FrameId}
    (found : (frames.erase key).lookup other = some frame) :
    other ≠ key ∧ frames.lookup other = some frame := by
  by_cases same : other = key
  · rw [same, AList.lookup_erase] at found
    cases found
  · rw [AList.lookup_erase_ne same] at found
    exact ⟨same, found⟩

section Layers

variable (transparent : Transparent pool latest)

include transparent

theorem transparent_forget {fewer : FrameId → Option (Data × Int)}
    (known : ∀ key written, fewer key = some written → latest key = some written) :
    Transparent pool fewer where
  tidy := transparent.tidy
  valid := transparent.valid
  frames := transparent.frames
  copies key written wanted := transparent.copies key written (known key written wanted)

theorem transparent_forgetKey (key : FrameId) :
    Transparent pool (update latest key none) := by
  refine transparent_forget transparent fun other written wanted => ?_
  by_cases same : other = key
  · simp [same] at wanted
  · rwa [update_of_ne same] at wanted

theorem transparent_setFrame {next : FrameId → Option (Data × Int)}
    (opened : key.bufferPoolId ∈ pool.opened)
    (others : ∀ other, other ≠ key → next other = latest other)
    (copy : ∀ written, next key = some written → Copy key (pool.lower key) written (some frame)) :
    Transparent (pool.setFrame key frame) next where
  tidy := transparent.tidy
  valid := transparent.valid
  frames := by
    intro other otherFrame found
    by_cases same : other = key
    · exact same ▸ opened
    · rw [setFrame, AList.lookup_insert_ne same] at found
      exact transparent.frames other otherFrame found
  copies := by
    intro other written wanted
    by_cases same : other = key
    · subst same
      rw [setFrame, AList.lookup_insert]
      exact copy written wanted
    · rw [setFrame, AList.lookup_insert_ne same]
      rw [others other same] at wanted
      exact transparent.copies other written wanted

theorem transparent_reframe {other : Frame Data} (found : pool.frames.lookup key = some frame)
    (alike : bytes key other.page = bytes key frame.page ∧ other.dirty = frame.dirty) :
    Transparent (pool.setFrame key other) latest := by
  refine transparent_setFrame transparent (transparent.frames key frame found) (fun _ _ => rfl)
    fun written wanted => ?_
  rw [Copy, alike.1, alike.2]
  exact copy_resident transparent found wanted

theorem transparent_writeFrame (opened : key.bufferPoolId ∈ pool.opened)
    (dirty : frame.dirty = true) :
    Transparent (pool.setFrame key frame) (update latest key (some (bytes key frame.page))) := by
  refine transparent_setFrame transparent opened (fun other different => update_of_ne different _ _)
    fun written wanted => ?_
  rw [update_self] at wanted
  exact ⟨some.inj wanted, by simp [dirty]⟩

theorem transparent_freeFrame
    (below : ∀ written, latest key = some written → Holds key (pool.lower key) written) :
    Transparent (pool.freeFrame key) latest where
  tidy := transparent.tidy
  valid := transparent.valid
  frames _ _ found := transparent.frames _ _ (lookup_erase_some found).2
  copies := by
    intro other written wanted
    by_cases same : other = key
    · subst same
      rw [freeFrame, AList.lookup_erase]
      exact below written wanted
    · rw [freeFrame, AList.lookup_erase_ne same]
      exact transparent.copies other written wanted

theorem transparent_perform {result : Buffer (Page Data) × List (FileWrite (Page Data))}
    (carries : pool.Carries (pool.perform result))
    (lower : ∀ key, (pool.perform result).lower key = pool.lower key) :
    Transparent (pool.perform result) latest where
  tidy := carries.tidy
  valid := (valid_carried transparent carries :)
  frames := transparent.frames
  copies := by
    intro key written wanted
    rw [lower key]
    exact transparent.copies key written wanted

end Layers

section AddPage

variable (transparent : Transparent pool latest) (opened : key.bufferPoolId ∈ pool.opened)
  (fresh : NoStale pool.dblwr key) (config : Config) (walk : Iteration Data) (page : Page Data)

include transparent fresh in
theorem addPage_lower (other : FrameId) :
    (pool.addPage config walk key page).lower other =
      if other = key then .whole page else pool.lower other :=
  (add_effect transparent.tidy fresh config.maxPages page (walk.pagesPerm _ _)).2 other

include transparent opened fresh

theorem addPage_carries : pool.Carries (pool.addPage config walk key page) := by
  have carries :=
    (add_effect transparent.tidy fresh config.maxPages page (walk.pagesPerm (some key) _)).1
  constructor
  · exact carries.tidy
  · exact carries.stale
  · intro other member valid
    rcases carries.valid other member valid with rfl | old
    · exact .inl opened
    · exact .inr old

theorem transparent_addPage
    (image : ∀ written, latest key = some written → bytes key page = written) :
    Transparent (pool.addPage config walk key page) latest where
  tidy := (addPage_carries transparent opened fresh config walk page).tidy
  valid :=
    (valid_carried transparent (addPage_carries transparent opened fresh config walk page) :)
  frames := transparent.frames
  copies := by
    intro other written wanted
    have copy := transparent.copies other written wanted
    rw [addPage_lower transparent fresh]
    by_cases same : other = key
    · subst same
      rw [if_pos rfl]
      have holds : Holds other (.whole page) written := ⟨page, rfl, image written wanted⟩
      change Copy _ _ _ (pool.frames.lookup other)
      cases found : pool.frames.lookup other with
      | none => exact holds
      | some frame =>
        rw [found] at copy
        exact ⟨copy.1, fun _ => holds⟩
    · rw [if_neg same]
      exact copy

end AddPage

section FlushFrame

variable (transparent : Transparent pool latest) (opened : key.bufferPoolId ∈ pool.opened)
  (fresh : NoStale pool.dblwr key) (config : Config) (walk : Iteration Data)

include transparent opened fresh

theorem transparent_flushInternal {next : FrameId → Option (Data × Int)}
    (others : ∀ other, other ≠ key → next other = latest other)
    (image : ∀ written, next key = some written → bytes key frame.page = written) :
    Transparent (pool.flushPageInternal config walk key frame) next := by
  have forgotten := transparent_forgetKey transparent key
  have added := transparent_addPage forgotten opened fresh config walk frame.page (by simp)
  refine transparent_setFrame added opened (fun other different => ?_) fun written wanted => ?_
  · rw [update_of_ne different, others other different]
  · have holds : Holds key (.whole frame.page) written := ⟨frame.page, rfl, image written wanted⟩
    rw [addPage_lower forgotten fresh, if_pos rfl]
    exact ⟨image written wanted, fun _ => holds⟩

end FlushFrame

structure Settles (pool next : Pool Data) (latest : FrameId → Option (Data × Int)) : Prop where
  transparent : Transparent next latest
  stale : pool.StaleKept next
  opened : next.opened = pool.opened

structure Moves (pool next : Pool Data) (latest : FrameId → Option (Data × Int)) : Prop
    extends Settles pool next latest where
  frames : ∀ key frame, next.frames.lookup key = some frame → pool.frames.lookup key = some frame

theorem settles_refl (transparent : Transparent pool latest) : Settles pool pool latest where
  transparent := transparent
  stale _ _ found _ := ⟨found, rfl⟩
  opened := rfl

theorem settles_trans {middle : Pool Data}
    (first : Settles pool middle latest) (second : Settles middle next latest) :
    Settles pool next latest where
  transparent := second.transparent
  stale := kept_trans first.stale second.stale
  opened := second.opened.trans first.opened

theorem moves_refl (transparent : Transparent pool latest) : Moves pool pool latest where
  toSettles := settles_refl transparent
  frames _ _ found := found

theorem moves_trans {middle : Pool Data}
    (first : Moves pool middle latest) (second : Moves middle next latest) :
    Moves pool next latest where
  toSettles := settles_trans first.toSettles second.toSettles
  frames key frame found := first.frames key frame (second.frames key frame found)

theorem moves_absent (moves : Moves pool next latest) (absent : pool.frames.lookup key = none) :
    next.frames.lookup key = none := by
  refine eq_none_iff_forall_not_mem.mpr fun frame kept => ?_
  cases absent.symm.trans (moves.frames key frame kept)

def FlushSafe (pool : Pool Data) (key : FrameId) : Prop :=
  ∀ frame ∈ pool.frames.lookup key, frame.dirty = true → NoStale pool.dblwr key

theorem moves_flushSafe (moves : Moves pool next latest) (safe : FlushSafe pool key) :
    FlushSafe next key := fun frame found dirty =>
  kept_noStale moves.stale (safe frame (moves.frames key frame found) dirty)

theorem moves_purgeFrame (transparent : Transparent pool latest) (config : Config)
    (walk : Iteration Data) (found : pool.frames.lookup key = some frame)
    (safe : FlushSafe pool key) :
    Moves pool (pool.purgeFrame config walk key frame) latest := by
  have opened := transparent.frames key frame found
  unfold purgeFrame
  cases dirty : frame.dirty with
  | false =>
    refine ⟨⟨transparent_freeFrame transparent fun written wanted => ?_,
      fun _ _ same _ => ⟨same, rfl⟩, rfl⟩, fun other otherFrame kept => ?_⟩
    · exact (copy_resident transparent found wanted).2 dirty
    · exact (lookup_erase_some kept).2
  | true =>
    have fresh := safe frame found dirty
    have image : ∀ written, latest key = some written → bytes key frame.page = written :=
      fun _ wanted => (copy_resident transparent found wanted).1
    have flushed := transparent_flushInternal transparent opened fresh config walk
      (fun _ _ => rfl) image
    refine ⟨⟨transparent_freeFrame flushed fun written wanted => ?_,
      (addPage_carries transparent opened fresh config walk frame.page).stale, rfl⟩,
      fun other otherFrame kept => ?_⟩
    · refine ⟨frame.page, ?_, image written wanted⟩
      exact (addPage_lower transparent fresh config walk frame.page key).trans (if_pos rfl)
    · obtain ⟨different, inserted⟩ := lookup_erase_some kept
      rwa [if_pos rfl, flushPageInternal, setFrame,
        AList.lookup_insert_ne different] at inserted

variable {victims : List FrameId}

theorem moves_makeRoom (transparent : Transparent pool latest) (config : Config)
    (walk : Iteration Data) (safe : ∀ victim ∈ victims, FlushSafe pool victim) :
    Moves pool (pool.makeRoom config walk victims).1 latest := by
  fun_induction Pool.makeRoom config walk victims pool with
  | case1 | case2 | case3 | case5 => exact moves_refl transparent
  | case4 pool _ victim rest frame found _ ih =>
    have purged := moves_purgeFrame transparent config walk found (safe victim mem_cons_self)
    refine moves_trans purged (ih purged.transparent fun other member => ?_)
    exact moves_flushSafe purged (safe other (.tail _ member))

theorem loadPage_eq_lower (current : Current pool.dblwr pool.disk key) :
    pool.loadPage key = pool.lower key := by
  unfold loadPage lower lowerPage
  cases found : pool.dblwr.find key with
  | none => rfl
  | some page =>
    cases valid : page.valid with
    | true => simp [valid]
    | false => simp [valid, current page found valid]

theorem loaded_latest {room : Pool Data} (moves : Moves pool room latest)
    (absent : pool.frames.lookup key = none) {page : Page Data}
    (loaded : room.loadPage key = .whole page) {written : Data × Int}
    (wanted : latest key = some written) (current : Current pool.dblwr pool.disk key) :
    bytes key page = written ∧ Holds key (room.lower key) written := by
  have holds := moves.transparent.copies key written wanted
  rw [moves_absent moves absent] at holds
  obtain ⟨below, stored, equal⟩ := id holds
  rw [loadPage_eq_lower (kept_current moves.stale current), stored] at loaded
  cases loaded
  exact ⟨equal, holds⟩

structure Fetches (pool : Pool Data) (latest : FrameId → Option (Data × Int)) (key : FrameId)
    (result : Pool Data × Except RC (Page Data)) : Prop where
  transparent : Transparent result.1 latest
  opened : result.1.opened = pool.opened
  returned : ∀ page, result.2 = .ok page → ∀ written, latest key = some written →
    bytes key page = written

section Fetch

variable (transparent : Transparent pool latest) (opened : key.bufferPoolId ∈ pool.opened)
  (config : Config) (walk : Iteration Data) (safe : ∀ victim ∈ victims, FlushSafe pool victim)

include transparent opened safe

theorem fetches_fetchPage
    (current : ∀ written, latest key = some written → Current pool.dblwr pool.disk key) :
    Fetches pool latest key (pool.fetchPage config walk victims key) := by
  unfold fetchPage
  cases found : pool.frames.lookup key with
  | some frame =>
    refine ⟨transparent_reframe transparent found ⟨rfl, rfl⟩, rfl, ?_⟩
    rintro page ⟨rfl⟩ written wanted
    exact (copy_resident transparent found wanted).1
  | none =>
    have moves := moves_makeRoom transparent config walk safe
    rcases made : pool.makeRoom config walk victims with ⟨room, enough⟩
    rw [made] at moves
    cases enough with
    | false => exact ⟨moves.transparent, moves.opened, by rintro page ⟨⟩⟩
    | true =>
      simp only
      cases loaded : room.loadPage key with
      | torn => exact ⟨moves.transparent, moves.opened, by rintro page ⟨⟩⟩
      | whole page =>
        have same written (wanted : latest key = some written) :=
          loaded_latest moves found loaded wanted (current written wanted)
        refine ⟨transparent_setFrame moves.transparent (moves.opened ▸ opened) (fun _ _ => rfl)
          fun written wanted => (same written wanted).imp_right fun holds _ => holds,
          moves.opened, ?_⟩
        rintro _ ⟨rfl⟩ written wanted
        exact (same written wanted).1

theorem fetches_getThisPage (format : PageFormat Data)
    (current : ∀ written, latest key = some written → Current pool.dblwr pool.disk key) :
    Fetches pool latest key (pool.getThisPage format config walk victims key) := by
  unfold getThisPage
  split
  · exact ⟨transparent, rfl, by rintro page ⟨⟩⟩
  · split
    · exact fetches_fetchPage transparent opened config walk safe current
    · exact ⟨transparent, rfl, by rintro page ⟨⟩⟩

end Fetch

section WholeFile

variable (transparent : Transparent pool latest) (config : Config) (walk : Iteration Data)

include transparent

theorem settles_flushPage (fresh : ∀ frame ∈ pool.frames.lookup key, NoStale pool.dblwr key) :
    Settles pool (pool.flushPage config walk key) latest := by
  unfold Pool.flushPage
  cases found : pool.frames.lookup key with
  | none => exact settles_refl transparent
  | some frame =>
    have opened := transparent.frames key frame found
    have noStale := fresh frame found
    refine ⟨transparent_flushInternal transparent opened noStale config walk (fun _ _ => rfl)
      fun written wanted => ?_,
      (addPage_carries transparent opened noStale config walk frame.page).stale, rfl⟩
    exact (copy_resident transparent found wanted).1

theorem settles_flushPages {keys : List FrameId} (fresh : ∀ key ∈ keys, NoStale pool.dblwr key) :
    Settles pool (keys.foldl (fun pool key => pool.flushPage config walk key) pool) latest := by
  induction keys generalizing pool with
  | nil => exact settles_refl transparent
  | cons key rest ih =>
    have first : Settles pool (pool.flushPage config walk key) latest :=
      settles_flushPage transparent config walk fun _ _ => fresh key mem_cons_self
    refine settles_trans first (ih first.transparent fun other member => ?_)
    exact kept_noStale first.stale (fresh other (.tail _ member))

theorem moves_purgePage (safe : FlushSafe pool key) :
    Moves pool (pool.purgePage config walk key).1 latest := by
  unfold purgePage
  cases found : pool.frames.lookup key with
  | none => exact moves_refl transparent
  | some frame =>
    simp only
    split
    · exact moves_purgeFrame transparent config walk found safe
    · exact moves_refl transparent

theorem purgePages_all {keys : List FrameId} (safe : ∀ key ∈ keys, FlushSafe pool key)
    (unpinned : ∀ key ∈ keys, ∀ frame ∈ pool.frames.lookup key, frame.canPurge = true) :
    ∃ next, keys.foldl (purgeNext config walk) (pool, true) = (next, true) ∧
      Moves pool next latest ∧ ∀ key ∈ keys, next.frames.lookup key = none := by
  induction keys generalizing pool with
  | nil => exact ⟨pool, rfl, moves_refl transparent, by simp⟩
  | cons key rest ih =>
    have first := moves_purgePage transparent config walk (safe key mem_cons_self)
    have purged : ∃ middle, pool.purgePage config walk key = (middle, .ok ()) ∧
        middle.frames.lookup key = none := by
      unfold purgePage
      cases found : pool.frames.lookup key with
      | none => exact ⟨pool, rfl, found⟩
      | some frame =>
        refine ⟨pool.purgeFrame config walk key frame, ?_, ?_⟩
        · simp [unpinned key mem_cons_self frame found]
        · simp [purgeFrame, freeFrame]
    obtain ⟨middle, result, gone⟩ := purged
    rw [result] at first
    obtain ⟨next, folded, later, absent⟩ := ih first.transparent
      (fun other member => moves_flushSafe first (safe other (.tail _ member)))
      (fun other member frame found =>
        unpinned other (.tail _ member) frame (first.frames other frame found))
    refine ⟨next, ?_, moves_trans first later, fun other member => ?_⟩
    · simp only [foldl_cons, purgeNext, result]
      exact folded
    · rcases mem_cons.mp member with rfl | inRest
      · exact moves_absent later gone
      · exact absent other inRest

theorem settles_flushDoubleWrite : Settles pool (pool.flushDoubleWrite walk) latest := by
  have perm := walk.pagesPerm none pool.dblwr.pages
  have carries := flush_carries transparent.tidy perm
    (fun key => key.bufferPoolId ∈ pool.opened)
  exact ⟨transparent_perform transparent carries (flush_lower transparent.tidy perm),
    carries.stale, rfl⟩

end WholeFile

/-- No user holds a page of the file, a dirty page has no invalid entry, and the
invalid entries of the file are what the data file holds. -/
@[mk_iff]
structure FileSafe (pool : Pool Data) (bufferPoolId : Int) : Prop where
  unpinned : ∀ key ∈ pool.frames.keys, key.bufferPoolId = bufferPoolId →
    ∀ frame ∈ pool.frames.lookup key, frame.pinCount = if key.pageNum = 0 then 1 else 0
  flushSafe : ∀ key ∈ pool.frames.keys, key.bufferPoolId = bufferPoolId → FlushSafe pool key
  current : ∀ page ∈ pool.dblwr.pages, page.key.bufferPoolId = bufferPoolId →
    Current pool.dblwr pool.disk page.key

theorem mem_keys_of_lookup {frames : AList fun _ : FrameId => Frame Data}
    (found : frames.lookup key = some frame) : key ∈ frames.keys :=
  AList.lookup_isSome.mp (by rw [found]; rfl)

variable {bufferPoolId : Int}

theorem fileSafe_current (safe : FileSafe pool bufferPoolId)
    (inFile : key.bufferPoolId = bufferPoolId) :
    Current pool.dblwr pool.disk key := by
  intro page found invalid
  obtain ⟨member, rfl⟩ := find_some found
  exact safe.current page member inFile page found invalid

section Close

theorem transparent_forgetFile (transparent : Transparent pool latest)
    (noFrames : ∀ key, key.bufferPoolId = bufferPoolId → pool.frames.lookup key = none)
    (noEntries : ∀ key, key.bufferPoolId = bufferPoolId → pool.dblwr.find key = none) :
    Transparent { pool with opened := pool.opened.filter fun id => id ≠ bufferPoolId }
      latest where
  tidy := transparent.tidy
  valid := by
    intro page member valid
    refine mem_filter.mpr ⟨transparent.valid page member valid, decide_eq_true ?_⟩
    exact fun inFile => find_none (noEntries page.key inFile) page member rfl
  frames := by
    intro key frame found
    refine mem_filter.mpr ⟨transparent.frames key frame found, decide_eq_true ?_⟩
    exact fun inFile => by cases (noFrames key inFile).symm.trans found
  copies := transparent.copies

theorem unpinHeader_lookup (found : (pool.unpinHeader bufferPoolId).frames.lookup key = some frame) :
    ∃ old, pool.frames.lookup key = some old ∧ frame.page = old.page ∧ frame.dirty = old.dirty ∧
      frame.pinCount = if key = headerKey bufferPoolId then old.pinCount - 1
        else old.pinCount := by
  unfold unpinHeader at found
  cases header : pool.frames.lookup (headerKey bufferPoolId) with
  | none =>
    rw [header] at found
    have different : key ≠ headerKey bufferPoolId := by
      rintro rfl
      cases header.symm.trans found
    exact ⟨frame, found, rfl, rfl, by rw [if_neg different]⟩
  | some old =>
    rw [header] at found
    by_cases same : key = headerKey bufferPoolId
    · subst same
      simp only [setFrame, AList.lookup_insert, some.injEq] at found
      subst found
      exact ⟨old, header, rfl, rfl, by simp [Frame.unpin]⟩
    · simp only [setFrame] at found
      rw [AList.lookup_insert_ne same] at found
      exact ⟨frame, found, rfl, rfl, by rw [if_neg same]⟩

theorem transparent_unpinHeader (transparent : Transparent pool latest) :
    Transparent (pool.unpinHeader bufferPoolId) latest := by
  unfold unpinHeader
  cases header : pool.frames.lookup (headerKey bufferPoolId) with
  | none => exact transparent
  | some frame => exact transparent_reframe transparent header ⟨rfl, rfl⟩

theorem unpinHeader_same : (pool.unpinHeader bufferPoolId).dblwr = pool.dblwr ∧
    (pool.unpinHeader bufferPoolId).disk = pool.disk ∧
    (pool.unpinHeader bufferPoolId).opened = pool.opened := by
  unfold unpinHeader
  split <;> exact ⟨rfl, rfl, rfl⟩

structure Closes (pool next : Pool Data) (latest : FrameId → Option (Data × Int))
    (bufferPoolId : Int) : Prop where
  transparent : Transparent next latest
  stale : pool.StaleKept next
  frames : ∀ key frame, next.frames.lookup key = some frame →
    key.bufferPoolId ≠ bufferPoolId ∧ pool.frames.lookup key = some frame
  opened : next.opened = pool.opened.filter fun id => id ≠ bufferPoolId

section

variable (safe : FileSafe pool bufferPoolId) (inFile : key.bufferPoolId = bufferPoolId)
include safe inFile

theorem unpinHeader_canPurge
    (found : (pool.unpinHeader bufferPoolId).frames.lookup key = some frame) :
    frame.canPurge = true := by
  obtain ⟨old, oldFound, -, -, pins⟩ := unpinHeader_lookup found
  have oldPins := safe.unpinned key (mem_keys_of_lookup oldFound) inFile old oldFound
  have header : key = headerKey bufferPoolId ↔ key.pageNum = 0 := by
    subst inFile
    obtain ⟨id, pageNum⟩ := key
    simp [headerKey]
  rw [oldPins] at pins
  simp only [header] at pins
  simp only [Frame.canPurge, decide_eq_true_eq, pins]
  split <;> rfl

theorem unpinHeader_flushSafe :
    FlushSafe (pool.unpinHeader bufferPoolId) key := by
  intro frame found dirty
  obtain ⟨old, oldFound, -, sameDirty, -⟩ := unpinHeader_lookup found
  rw [unpinHeader_same.1]
  exact safe.flushSafe key (mem_keys_of_lookup oldFound) inFile old oldFound
    (sameDirty ▸ dirty)

end

theorem mem_findList {walk : Iteration Data} :
    key ∈ pool.findList walk bufferPoolId ↔
      key ∈ pool.frames.keys ∧ key.bufferPoolId = bufferPoolId := by
  rw [findList, (walk.framesPerm _).mem_iff, mem_filter, decide_eq_true_eq]

theorem closes_closeFile (transparent : Transparent pool latest) (config : Config)
    (walk : Iteration Data) (safe : FileSafe pool bufferPoolId) :
    Closes pool (pool.closeFile config walk bufferPoolId) latest bufferPoolId := by
  have unpinned : Transparent (pool.unpinHeader bufferPoolId) latest :=
    transparent_unpinHeader transparent
  obtain ⟨purged, folded, moves, gone⟩ := @purgePages_all _ _ _ unpinned config walk
    ((pool.unpinHeader bufferPoolId).findList walk bufferPoolId)
    (fun key member => unpinHeader_flushSafe safe (mem_findList.mp member).2)
    (fun key member frame found =>
      unpinHeader_canPurge safe (mem_findList.mp member).2 found)
  have noFrames : ∀ key, key.bufferPoolId = bufferPoolId →
      purged.frames.lookup key = none := by
    refine fun key inFile => eq_none_iff_forall_not_mem.mpr fun frame found => ?_
    have before := mem_keys_of_lookup (moves.frames key frame found)
    cases found.symm.trans (gone key (mem_findList.mpr ⟨before, inFile⟩))
  have stale : pool.StaleKept purged := by
    have kept := moves.stale
    unfold Pool.StaleKept at kept
    rwa [unpinHeader_same.1, unpinHeader_same.2.1] at kept
  have current : ∀ page ∈ purged.dblwr.pages, page.key.bufferPoolId = bufferPoolId →
      Current purged.dblwr purged.disk page.key :=
    fun page _ inFile => kept_current stale (fileSafe_current safe inFile)
  have carries := clear_carries moves.transparent.tidy bufferPoolId current
    (fun key => key.bufferPoolId ∈ purged.opened)
  have cleared : Transparent (purged.perform (purged.dblwr.clearPages bufferPoolId)) latest :=
    transparent_perform moves.transparent carries
      (clear_lower moves.transparent.tidy bufferPoolId current)
  have result : pool.closeFile config walk bufferPoolId =
      { purged.perform (purged.dblwr.clearPages bufferPoolId) with
          opened := purged.opened.filter fun id => id ≠ bufferPoolId } := by
    simp only [closeFile, purgeAllPages, folded, perform]
  rw [result]
  constructor
  · refine transparent_forgetFile cleared noFrames fun key inFile => ?_
    exact (cleared_find moves.transparent.tidy bufferPoolId key).trans (if_pos inFile)
  · exact kept_trans stale carries.stale
  · intro key frame found
    have different : key.bufferPoolId ≠ bufferPoolId :=
      fun inFile => by cases (noFrames key inFile).symm.trans found
    obtain ⟨old, oldFound, samePage, sameDirty, samePins⟩ :=
      unpinHeader_lookup (moves.frames key frame found)
    have notHeader : key ≠ headerKey bufferPoolId := by
      rintro rfl
      exact different rfl
    rw [if_neg notHeader] at samePins
    have same : frame = old := by
      cases frame
      cases old
      simp_all
    exact ⟨different, same ▸ oldFound⟩
  · rw [moves.opened, unpinHeader_same.2.2]

end Close

theorem fileSafe_of_closes
    {closed other : Int} (closes : Closes pool next latest closed) (safe : FileSafe pool other) :
    FileSafe next other where
  unpinned := by
    intro key _ inFile frame found
    have before := (closes.frames key frame found).2
    exact safe.unpinned key (mem_keys_of_lookup before) inFile frame before
  flushSafe := by
    intro key _ inFile frame found dirty
    have before := (closes.frames key frame found).2
    exact kept_noStale closes.stale
      (safe.flushSafe key (mem_keys_of_lookup before) inFile frame before dirty)
  current page _ inFile := kept_current closes.stale (fileSafe_current safe inFile)

section

variable (transparent : Transparent pool latest)
include transparent

theorem transparent_closeFiles (config : Config) (walk : Iteration Data) {files : List Int}
    (safe : ∀ id ∈ files, FileSafe pool id) :
    Transparent (files.foldl (fun pool id => pool.closeFile config walk id) pool) latest ∧
      (files.foldl (fun pool id => pool.closeFile config walk id) pool).opened =
        pool.opened.filter fun id => id ∉ files := by
  induction files generalizing pool with
  | nil => exact ⟨transparent, by simp⟩
  | cons file rest ih =>
    have closes := closes_closeFile transparent config walk (safe file mem_cons_self)
    obtain ⟨later, opened⟩ := ih closes.transparent fun id member =>
      fileSafe_of_closes closes (safe id (.tail _ member))
    refine ⟨later, ?_⟩
    rw [List.foldl_cons, opened, closes.opened, List.filter_filter]
    apply List.filter_congr
    intro id _
    simp [Bool.and_comm]

/-- With every file closed and the map empty, the double-write file holds no
valid slot: what is loaded is invalid and counts for nothing. -/
theorem transparent_reload (noFiles : pool.opened = []) (noEntries : pool.dblwr.pages = []) :
    Transparent { pool with frames := ∅, dblwr := loadPages pool.disk, opened := [] } latest := by
  have invalid : ∀ index page, pool.disk.slots index = .whole page → page.valid = false := by
    intro index page slot
    cases valid : page.valid with
    | false => rfl
    | true =>
      have member := transparent.tidy.slots index page slot valid
      rw [noEntries] at member
      cases member
  have loadedInvalid : ∀ page ∈ (loadPages pool.disk).pages, page.valid = false := by
    intro page member
    obtain ⟨index, -, slot, -⟩ := (mem_loadPages _ page).mp member
    exact invalid index page slot
  constructor
  · refine ⟨loadedBelow_keys_nodup _ _, ?_, transparent.tidy.indexed⟩
    intro index page slot valid
    cases (invalid index page slot).symm.trans valid
  · intro page member valid
    cases (loadedInvalid page member).symm.trans valid
  · rintro key frame ⟨⟩
  · intro key written wanted
    have copy := transparent.copies key written wanted
    have absent : pool.frames.lookup key = none := by
      refine eq_none_iff_forall_not_mem.mpr fun frame found => ?_
      cases noFiles ▸ transparent.frames key frame found
    have before : pool.lower key = pool.disk.data key := by
      simp [lower, lowerPage, Buffer.find, noEntries]
    have after : lowerPage (loadPages pool.disk) pool.disk key = pool.disk.data key := by
      unfold lowerPage
      cases found : (loadPages pool.disk).find key with
      | none => rfl
      | some page => simp [loadedInvalid page (find_some found).1]
    rw [absent, before] at copy
    change Holds key (lowerPage (loadPages pool.disk) pool.disk key) written
    rw [after]
    exact copy

theorem transparent_restart (config : Config) (walk : Iteration Data)
    (safe : ∀ id ∈ pool.opened, FileSafe pool id) :
    Transparent (pool.restart config walk) latest := by
  have listed : ∀ id ∈ walk.files pool.opened, FileSafe pool id :=
    fun id member => safe id ((walk.filesPerm _).mem_iff.mp member)
  obtain ⟨closed, opened⟩ := transparent_closeFiles transparent config walk listed
  have noFiles : (pool.opened.filter fun id => id ∉ walk.files pool.opened) = [] := by
    refine filter_eq_nil_iff.mpr fun id member => ?_
    simpa using (walk.filesPerm _).mem_iff.mpr member
  have flushed := settles_flushDoubleWrite closed walk
  exact transparent_reload flushed.transparent (flushed.opened.trans (opened.trans noFiles)) rfl

end

section OpenAllocateDispose

variable (transparent : Transparent pool latest) (config : Config) (walk : Iteration Data)
  (safe : ∀ victim ∈ victims, FlushSafe pool victim)

include transparent safe

theorem transparent_openFile (notOpen : bufferPoolId ∉ pool.opened)
    (current : Current pool.dblwr pool.disk (headerKey bufferPoolId)) :
    Transparent (pool.openFile config walk victims bufferPoolId).1 latest := by
  have moves := moves_makeRoom transparent config walk safe
  have noHeader : pool.frames.lookup (headerKey bufferPoolId) = none :=
    eq_none_iff_forall_not_mem.mpr fun frame found => notOpen (transparent.frames _ frame found)
  unfold openFile allocateFrame
  simp only [noHeader]
  rcases made : pool.makeRoom config walk victims with ⟨room, enough⟩
  rw [made] at moves
  cases enough with
  | false => exact moves.transparent
  | true =>
    simp only
    cases loaded : room.loadPage (headerKey bufferPoolId) with
    | torn => exact moves.transparent
    | whole page =>
      have listed : Transparent { room with opened := bufferPoolId :: room.opened } latest :=
        { moves.transparent with
            valid := fun page member valid =>
              .tail _ (moves.transparent.valid page member valid)
            frames := fun key frame found =>
              .tail _ (moves.transparent.frames key frame found) }
      simp only [moves_absent moves noHeader]
      refine transparent_setFrame listed mem_cons_self (fun _ _ => rfl) fun written wanted => ?_
      exact (loaded_latest moves noHeader loaded wanted current).imp_right fun holds _ => holds

def headerBytes (format : PageFormat Data) (hdrFrame : Frame Data) (header : BPFileHeader) :
    Data × Int :=
  (format.setHeader hdrFrame.page.data header, 0)

omit safe in
theorem transparent_writeHeader (format : PageFormat Data)
    (opened : bufferPoolId ∈ pool.opened) (hdrFrame : Frame Data) (header : BPFileHeader)
    (lsn : Int) :
    Transparent (pool.writeHeader format bufferPoolId hdrFrame header lsn)
      (update latest (headerKey bufferPoolId)
        (some (headerBytes format hdrFrame header))) :=
  transparent_writeFrame transparent opened rfl

end OpenAllocateDispose

variable {format : PageFormat Data} {header : BPFileHeader}

theorem fileHeader_some (found : pool.fileHeader format bufferPoolId = some (header, frame)) :
    pool.frames.lookup (headerKey bufferPoolId) = some frame ∧
      header = format.header frame.page.data := by
  obtain ⟨resident, lookup, same⟩ := map_eq_some_iff.mp found
  cases same
  exact ⟨lookup, rfl⟩

def allocatedBytes (format : PageFormat Data) (lsn : Int) (pool : Pool Data) (bufferPoolId : Int)
    (result : Except RC FrameId) (latest : FrameId → Option (Data × Int)) :
    FrameId → Option (Data × Int) :=
  match pool.fileHeader format bufferPoolId with
  | none => latest
  | some (header, hdrFrame) =>
    match header.freePage with
    | some pageNum =>
      let key : FrameId := ⟨bufferPoolId, pageNum⟩
      let marked := update latest (headerKey bufferPoolId)
        (some (headerBytes format hdrFrame (header.reuse pageNum)))
      match result with
      | .ok _ => update marked key (some (bytes key ⟨lsn, format.zero⟩))
      | .error _ => update marked key none
    | none =>
      let key : FrameId := ⟨bufferPoolId, header.pageCount⟩
      match result with
      | .ok _ => update
          (update latest (headerKey bufferPoolId)
            (some (headerBytes format hdrFrame header.extend)))
          key (some (bytes key ⟨0, format.zero⟩))
      | .error _ => latest

section Allocate

variable (transparent : Transparent pool latest) (opened : bufferPoolId ∈ pool.opened)
  (format : PageFormat Data) (config : Config) (walk : Iteration Data)
  (safe : ∀ victim ∈ victims, FlushSafe pool victim)
  (notHeader : headerKey bufferPoolId ∉ victims)

include safe notHeader in
theorem flushSafe_setHeader (frame : Frame Data) :
    ∀ victim ∈ victims, FlushSafe (pool.setFrame (headerKey bufferPoolId) frame) victim := by
  intro victim member resident found dirty
  have different : victim ≠ headerKey bufferPoolId := fun same => notHeader (same ▸ member)
  rw [setFrame, AList.lookup_insert_ne different] at found
  exact safe victim member resident found dirty

include opened in
theorem transparent_extended (lsn : Int)
    (fresh : NoStale pool.dblwr ⟨bufferPoolId, header.pageCount⟩) {room : Pool Data}
    (settled : Settles pool room latest) (hdrFrame frame : Frame Data)
    (cleared : frame.page = ⟨0, format.zero⟩) :
    Transparent ((room.writeHeader format bufferPoolId hdrFrame header.extend lsn)
        |>.flushPageInternal config walk ⟨bufferPoolId, header.pageCount⟩ frame)
      (update
        (update latest (headerKey bufferPoolId)
          (some (headerBytes format hdrFrame header.extend)))
        ⟨bufferPoolId, header.pageCount⟩
        (some (bytes ⟨bufferPoolId, header.pageCount⟩ ⟨0, format.zero⟩))) := by
  have roomOpened : bufferPoolId ∈ room.opened := settled.opened ▸ opened
  have marked := transparent_writeHeader settled.transparent format roomOpened hdrFrame
    header.extend lsn
  refine transparent_flushInternal marked roomOpened (kept_noStale settled.stale fresh) config
    walk (fun other different => update_of_ne different _ _) fun written wanted => ?_
  rw [update_self] at wanted
  rw [cleared]
  exact some.inj wanted

include transparent opened safe notHeader

section

variable (lsn : Int) {hdrFrame : Frame Data}
  (found : pool.fileHeader format bufferPoolId = some (header, hdrFrame))
include lsn found

theorem transparent_reusePage {pageNum : Nat} (free : header.freePage = some pageNum) :
    Transparent (pool.allocatePage format config walk victims lsn bufferPoolId).1
      (allocatedBytes format lsn pool bufferPoolId
        (pool.allocatePage format config walk victims lsn bufferPoolId).2 latest) := by
  unfold allocatePage allocatedBytes
  simp only [found, free]
  have marked := transparent_writeHeader transparent format opened hdrFrame
    (header.reuse pageNum) lsn
  have forgotten := transparent_forgetKey marked ⟨bufferPoolId, pageNum⟩
  have fetches : Fetches _ _ ⟨bufferPoolId, pageNum⟩ _ :=
    fetches_getThisPage forgotten opened config walk (flushSafe_setHeader safe notHeader _)
      format (by simp)
  rcases got : (pool.writeHeader format bufferPoolId hdrFrame (header.reuse pageNum)
    lsn).getThisPage format config walk victims ⟨bufferPoolId, pageNum⟩ with ⟨next, result⟩
  rw [got] at fetches
  cases result with
  | error rc => exact fetches.transparent
  | ok page =>
    simp only
    cases resident : next.frames.lookup ⟨bufferPoolId, pageNum⟩ with
    | none => exact fetches.transparent
    | some frame =>
      simp only
      have written := @transparent_writeFrame _ _ _ ⟨bufferPoolId, pageNum⟩
        { frame with page := ⟨lsn, format.zero⟩, dirty := true } fetches.transparent
        (fetches.opened ▸ opened) rfl
      rwa [update_idem] at written

theorem transparent_extendFile (full : header.freePage = none)
    (fresh : NoStale pool.dblwr ⟨bufferPoolId, header.pageCount⟩) :
    Transparent (pool.allocatePage format config walk victims lsn bufferPoolId).1
      (allocatedBytes format lsn pool bufferPoolId
        (pool.allocatePage format config walk victims lsn bufferPoolId).2 latest) := by
  unfold allocatePage allocatedBytes
  simp only [found, full]
  split
  · exact transparent
  have stamped : Transparent (pool.setFrame (headerKey bufferPoolId)
      { hdrFrame with page := { hdrFrame.page with lsn := lsn } }) latest :=
    transparent_reframe transparent (fileHeader_some found).1 ⟨rfl, rfl⟩
  have asSettled : Settles pool _ latest := ⟨stamped, fun _ _ same _ => ⟨same, rfl⟩, rfl⟩
  split
  · rename_i frame resident
    exact transparent_extended opened format config walk lsn fresh asSettled hdrFrame
      { frame.pin with page := ⟨0, format.zero⟩ } rfl
  · have moves := moves_makeRoom stamped config walk (flushSafe_setHeader safe notHeader _)
    rcases made : (pool.setFrame (headerKey bufferPoolId)
        { hdrFrame with page := { hdrFrame.page with lsn := lsn } }).makeRoom config walk victims
      with ⟨room, enough⟩
    rw [made] at moves
    cases enough with
    | false => exact moves.transparent
    | true =>
      exact transparent_extended opened format config walk lsn fresh
        (settles_trans asSettled moves.toSettles) hdrFrame ⟨⟨0, format.zero⟩, false, 1⟩ rfl

end

theorem transparent_allocatePage (lsn : Int)
    (fresh : ∀ found ∈ pool.fileHeader format bufferPoolId, found.1.freePage = none →
      NoStale pool.dblwr ⟨bufferPoolId, found.1.pageCount⟩) :
    Transparent (pool.allocatePage format config walk victims lsn bufferPoolId).1
      (allocatedBytes format lsn pool bufferPoolId
        (pool.allocatePage format config walk victims lsn bufferPoolId).2 latest) := by
  cases found : pool.fileHeader format bufferPoolId with
  | none =>
    unfold allocatePage allocatedBytes
    simp only [found]
    exact transparent
  | some headerAndFrame =>
    obtain ⟨header, hdrFrame⟩ := headerAndFrame
    cases free : header.freePage with
    | some pageNum =>
      exact transparent_reusePage transparent opened format config walk safe notHeader lsn
        found free
    | none =>
      exact transparent_extendFile transparent opened format config walk safe notHeader lsn
        found free (fresh _ found free)

end Allocate

def disposedBytes (format : PageFormat Data) (pool : Pool Data) (key : FrameId)
    (result : Except RC Unit) (latest : FrameId → Option (Data × Int)) :
    FrameId → Option (Data × Int) :=
  match pool.fileHeader format key.bufferPoolId, result with
  | some (header, hdrFrame), .ok () => update
      (update latest (headerKey key.bufferPoolId)
        (some (headerBytes format hdrFrame (header.dispose key.pageNum.toNat)))) key none
  | _, _ => latest

theorem transparent_disposePage (transparent : Transparent pool latest) (format : PageFormat Data)
    (lsn : Int) (opened : key.bufferPoolId ∈ pool.opened) :
    Transparent (pool.disposePage format lsn key).1
      (disposedBytes format pool key (pool.disposePage format lsn key).2 latest) := by
  unfold disposePage disposedBytes
  split
  · split
    · rename_i failed
      cases failed
    · exact transparent
  cases found : pool.fileHeader format key.bufferPoolId with
  | none => exact transparent
  | some headerAndFrame =>
    obtain ⟨header, hdrFrame⟩ := headerAndFrame
    have disposed := transparent_forgetKey (transparent_writeHeader transparent format opened
      hdrFrame (header.dispose key.pageNum.toNat) lsn) key
    simp only
    split
    · exact transparent
    cases resident : pool.frames.lookup key with
    | none => exact disposed
    | some frame =>
      simp only
      split
      · exact transparent_freeFrame disposed (by simp)
      · exact transparent

/-- The pool, and for every page the bytes last written to it while it stayed
allocated, which nothing reads. -/
structure System (Data : Type) where
  pool : Pool Data
  latest : FrameId → Option (Data × Int)

inductive Action (Data : Type) where
  | getThisPage (walk : Iteration Data) (victims : List FrameId) (key : FrameId)
  | modify (key : FrameId) (page : Page Data)
  | unpin (key : FrameId)
  | flushPage (walk : Iteration Data) (key : FrameId)
  | flushAllPages (walk : Iteration Data) (bufferPoolId : Int)
  | purgePage (walk : Iteration Data) (key : FrameId)
  | allocatePage (walk : Iteration Data) (victims : List FrameId) (lsn : Int) (bufferPoolId : Int)
  | disposePage (lsn : Int) (key : FrameId)
  | openFile (walk : Iteration Data) (victims : List FrameId) (bufferPoolId : Int)
  | closeFile (walk : Iteration Data) (bufferPoolId : Int)
  | flushDoubleWrite (walk : Iteration Data)
  | restart (walk : Iteration Data)

def Pool.heldFrame (pool : Pool Data) (key : FrameId) : Option (Frame Data) :=
  (pool.frames.lookup key).filter fun frame =>
    (if key.pageNum = 0 then 1 else 0) < frame.pinCount

/-- One call. A user changes and unpins only pages it has pinned, and the policy
does not name the header page, which the pool has pinned. -/
def step (format : PageFormat Data) (config : Config) (system : System Data) :
    Action Data → Option (System Data)
  | .getThisPage walk victims key =>
    if key.bufferPoolId ∈ system.pool.opened then
      some { system with
               pool := (system.pool.getThisPage format config walk victims key).1 }
    else none
  | .modify key page =>
    (system.pool.heldFrame key).map fun frame =>
      { pool := system.pool.setFrame key { frame with page := page, dirty := true }
        latest := update system.latest key (some (bytes key page)) }
  | .unpin key =>
    (system.pool.heldFrame key).map fun frame =>
      { system with pool := system.pool.setFrame key frame.unpin }
  | .flushPage walk key => some { system with pool := system.pool.flushPage config walk key }
  | .flushAllPages walk bufferPoolId =>
    some { system with pool := system.pool.flushAllPages config walk bufferPoolId }
  | .purgePage walk key => some { system with pool := (system.pool.purgePage config walk key).1 }
  | .allocatePage walk victims lsn bufferPoolId =>
    if bufferPoolId ∈ system.pool.opened ∧ headerKey bufferPoolId ∉ victims then
      let result := system.pool.allocatePage format config walk victims lsn bufferPoolId
      some { pool := result.1
             latest := allocatedBytes format lsn system.pool bufferPoolId result.2
               system.latest }
    else none
  | .disposePage lsn key =>
    if key.bufferPoolId ∈ system.pool.opened then
      let result := system.pool.disposePage format lsn key
      some { pool := result.1
             latest := disposedBytes format system.pool key result.2 system.latest }
    else none
  | .openFile walk victims bufferPoolId =>
    if bufferPoolId ∈ system.pool.opened then none
    else some { system with pool := (system.pool.openFile config walk victims bufferPoolId).1 }
  | .closeFile walk bufferPoolId =>
    some { system with pool := system.pool.closeFile config walk bufferPoolId }
  | .flushDoubleWrite walk => some { system with pool := system.pool.flushDoubleWrite walk }
  | .restart walk => some { system with pool := system.pool.restart config walk }

/-- A page that is fetched, flushed or closed meets no invalid entry that differs from its data
file, none at all where its image is to be added; files are closed with no page pinned. -/
def EntriesSafe (format : PageFormat Data) (system : System Data) : Action Data → Prop
  | .getThisPage _ victims key => (∀ victim ∈ victims, FlushSafe system.pool victim) ∧
      Current system.pool.dblwr system.pool.disk key
  | .flushPage _ key => NoStale system.pool.dblwr key
  | .flushAllPages _ bufferPoolId => ∀ key ∈ system.pool.frames.keys,
      key.bufferPoolId = bufferPoolId → NoStale system.pool.dblwr key
  | .purgePage _ key => FlushSafe system.pool key
  | .allocatePage _ victims _ bufferPoolId => (∀ victim ∈ victims, FlushSafe system.pool victim) ∧
      ∀ found ∈ system.pool.fileHeader format bufferPoolId, found.1.freePage = none →
        NoStale system.pool.dblwr ⟨bufferPoolId, found.1.pageCount⟩
  | .openFile _ victims bufferPoolId => (∀ victim ∈ victims, FlushSafe system.pool victim) ∧
      Current system.pool.dblwr system.pool.disk (headerKey bufferPoolId)
  | .closeFile _ bufferPoolId => FileSafe system.pool bufferPoolId
  | .restart _ => ∀ id ∈ system.pool.opened, FileSafe system.pool id
  | _ => True

def System.initial (data : FrameId → Page Data) : System Data where
  pool :=
    { frames := ∅
      dblwr := { pages := [], pageCnt := 0 }
      disk := { pageCnt := 0, slots := fun _ => .torn, data := fun key => .whole (data key) }
      opened := []
      handed := []
      issued := [] }
  latest := fun key => some (bytes key (data key))

theorem transparent_initial (data : FrameId → Page Data) :
    Transparent (System.initial data).pool (System.initial data).latest where
  tidy := ⟨nodup_nil, by simp [System.initial], by simp [System.initial]⟩
  valid := by simp [System.initial]
  frames := by rintro key frame ⟨⟩
  copies := by
    rintro key written ⟨⟩
    exact ⟨data key, rfl, rfl⟩

theorem heldFrame_some (held : pool.heldFrame key = some frame) :
    pool.frames.lookup key = some frame :=
  (filter_eq_some_iff.mp held).1

theorem transparent_step {config : Config} {system next : System Data}
    {action : Action Data} (transparent : Transparent system.pool system.latest)
    (safe : EntriesSafe format system action)
    (stepped : step format config system action = some next) :
    Transparent next.pool next.latest := by
  cases action with
  | getThisPage walk victims key =>
    obtain ⟨opened, ⟨⟩⟩ := ite_none_right_eq_some.mp stepped
    exact (fetches_getThisPage transparent opened config walk safe.1 format
      fun _ _ => safe.2).transparent
  | modify key page =>
    obtain ⟨frame, held, rfl⟩ := map_eq_some_iff.mp stepped
    exact transparent_writeFrame transparent (transparent.frames key frame (heldFrame_some held)) rfl
  | unpin key =>
    obtain ⟨frame, held, rfl⟩ := map_eq_some_iff.mp stepped
    exact transparent_reframe transparent (heldFrame_some held) ⟨rfl, rfl⟩
  | flushPage walk key =>
    cases stepped
    exact (settles_flushPage transparent config walk fun _ _ => safe).transparent
  | flushAllPages walk bufferPoolId =>
    cases stepped
    refine (settles_flushPages transparent config walk fun key member => ?_).transparent
    obtain ⟨resident, inFile⟩ := mem_findList.mp member
    exact safe key resident inFile
  | purgePage walk key =>
    cases stepped
    exact (moves_purgePage transparent config walk safe).transparent
  | allocatePage walk victims lsn bufferPoolId =>
    obtain ⟨⟨opened, notHeader⟩, ⟨⟩⟩ := ite_none_right_eq_some.mp stepped
    exact transparent_allocatePage transparent opened format config walk safe.1 notHeader lsn
      safe.2
  | disposePage lsn key =>
    obtain ⟨opened, ⟨⟩⟩ := ite_none_right_eq_some.mp stepped
    exact transparent_disposePage transparent format lsn opened
  | openFile walk victims bufferPoolId =>
    obtain ⟨notOpen, ⟨⟩⟩ := ite_none_left_eq_some.mp stepped
    exact transparent_openFile transparent config walk safe.1 notOpen safe.2
  | closeFile walk bufferPoolId =>
    cases stepped
    exact (closes_closeFile transparent config walk safe).transparent
  | flushDoubleWrite walk =>
    cases stepped
    exact (settles_flushDoubleWrite transparent walk).transparent
  | restart walk =>
    cases stepped
    exact transparent_restart transparent config walk safe

theorem transparent_reaches {config : Config} {data : FrameId → Page Data} {system : System Data}
    (run : Reaches (step format config) (EntriesSafe format) (System.initial data) system) :
    Transparent system.pool system.latest :=
  reaches_invariant (fun system => Transparent system.pool system.latest)
    (fun _ _ _ transparent safe stepped => transparent_step transparent safe stepped)
    (transparent_initial data) run

/-- Every page `get_this_page` returns has the bytes last written to it. -/
theorem get_this_page_returns_latest (format : PageFormat Data) (config : Config)
    (data : FrameId → Page Data) {system next : System Data}
    (run : Reaches (step format config) (EntriesSafe format) (System.initial data) system)
    (walk : Iteration Data) (victims : List FrameId) (key : FrameId)
    (safe : EntriesSafe format system (.getThisPage walk victims key))
    (stepped : step format config system (.getThisPage walk victims key) = some next)
    {page : Page Data}
    (returned : (system.pool.getThisPage format config walk victims key).2 = .ok page)
    {written : Data × Int} (known : system.latest key = some written) :
    bytes key page = written := by
  obtain ⟨opened, -⟩ := ite_none_right_eq_some.mp stepped
  have fetches := fetches_getThisPage (transparent_reaches run) opened config walk safe.1 format
    fun _ _ => safe.2
  exact fetches.returned page returned written known

section Decidable

variable [DecidableEq Data]

instance (pool : Pool Data) (key : FrameId) : Decidable (NoStale pool.dblwr key) := by
  unfold NoStale
  infer_instance

instance (pool : Pool Data) (key : FrameId) : Decidable (Current pool.dblwr pool.disk key) := by
  unfold Current
  infer_instance

instance (pool : Pool Data) (key : FrameId) : Decidable (FlushSafe pool key) := by
  unfold FlushSafe
  infer_instance

instance (pool : Pool Data) (bufferPoolId : Int) : Decidable (FileSafe pool bufferPoolId) :=
  decidable_of_iff _ (fileSafe_iff pool bufferPoolId).symm

instance (format : PageFormat Data) (system : System Data) (action : Action Data) :
    Decidable (EntriesSafe format system action) := by
  cases action <;> dsimp only [EntriesSafe] <;> infer_instance

end Decidable

def countFormat : PageFormat Nat where
  zero := 0
  header count := ⟨count, count, fun page => page < count⟩
  setHeader _ header := header.pageCount

def smallConfig : Config := { capacity := 4, maxPages := 16 }

def threePages : System Nat :=
  System.initial fun key => if key.pageNum = 0 then ⟨0, 3⟩ else ⟨0, 0⟩

def writePage (pageNum : Int) (page : Page Nat) : List (Action Nat) :=
  [.getThisPage .listed [] ⟨1, pageNum⟩, .modify ⟨1, pageNum⟩ page, .unpin ⟨1, pageNum⟩]

def writeAndRestart : List (Action Nat) :=
  [.openFile .listed [] 1] ++ writePage 2 ⟨7, 5⟩ ++
    [.restart .listed, .openFile .listed [] 1]

theorem get_this_page_returns_latest_after_restart :
    ∃ system next,
      Reaches (step countFormat smallConfig) (EntriesSafe countFormat) threePages system ∧
      step countFormat smallConfig system (.getThisPage .listed [] ⟨1, 2⟩) = some next ∧
      (system.pool.getThisPage countFormat smallConfig .listed [] ⟨1, 2⟩).2 = .ok ⟨7, 5⟩ ∧
      bytes ⟨1, 2⟩ (⟨7, 5⟩ : Page Nat) = (5, 7) := by
  have runs : (run (step countFormat smallConfig) (EntriesSafe countFormat) threePages
      writeAndRestart).isSome = true := by decide
  have safe : EntriesSafe countFormat ((run (step countFormat smallConfig)
      (EntriesSafe countFormat) threePages writeAndRestart).get runs)
      (.getThisPage .listed [] ⟨1, 2⟩) := by decide +revert
  exact ⟨_, _, run_get_reaches runs, rfl, rfl,
    get_this_page_returns_latest countFormat smallConfig _ (run_get_reaches runs) .listed []
      ⟨1, 2⟩ safe rfl rfl rfl⟩

def session (calls : List (Action Nat)) : List (Action Nat) :=
  [.openFile .listed [] 1] ++ calls ++ [.closeFile .listed 1]

/-- Page 2 is first written together with page 1, which leaves its image 5 in
slot 1, and then alone through slot 0; that slot is used for page 1 again. -/
def staleSlot : List (Action Nat) :=
  session (writePage 2 ⟨7, 5⟩ ++ writePage 1 ⟨7, 4⟩) ++ session (writePage 2 ⟨8, 6⟩) ++
    session (writePage 1 ⟨9, 3⟩) ++ [.restart .listed]

def readAfter (calls : List (Action Nat)) : Option (Option (Page Nat) × Option (Nat × Int)) :=
  (run (step countFormat smallConfig) (fun _ _ => True) threePages calls).map fun system =>
    ((system.pool.getThisPage countFormat smallConfig .listed [] ⟨1, 2⟩).2.toOption,
      system.latest ⟨1, 2⟩)

def ReadsStale (calls : List (Action Nat)) : Prop :=
  ∃ system page written,
    run (step countFormat smallConfig) (fun _ _ => True) threePages calls = some system ∧
    Reaches (step countFormat smallConfig) (fun _ _ => True) threePages system ∧
    (system.pool.getThisPage countFormat smallConfig .listed [] ⟨1, 2⟩).2 = .ok page ∧
    system.latest ⟨1, 2⟩ = some written ∧ bytes ⟨1, 2⟩ page ≠ written

theorem readsStale_of_readAfter {calls : List (Action Nat)} {page : Page Nat}
    {written : Nat × Int} (read : readAfter calls = some (some page, some written))
    (different : bytes ⟨1, 2⟩ page ≠ written) : ReadsStale calls := by
  obtain ⟨system, ran, values⟩ := map_eq_some_iff.mp read
  refine ⟨system, page, written, ran, run_reaches ran, ?_, congrArg Prod.snd values, different⟩
  have returned := congrArg Prod.fst values
  cases result : (system.pool.getThisPage countFormat smallConfig .listed [] ⟨1, 2⟩).2 with
  | error rc => simp [result, Except.toOption] at returned
  | ok fetched => simpa [result, Except.toOption] using returned

/-- After the restart page 2 is read as 5 although 6 was written last. Closing the
file before the map is flushed makes this permanent. And a page flushed into an
invalid entry is lost when the map is flushed. -/
theorem get_this_page_returns_stale :
    ReadsStale (staleSlot ++ [.openFile .listed [] 1]) ∧
    ReadsStale (staleSlot ++ session [] ++
      [.flushDoubleWrite .listed, .openFile .listed [] 1]) ∧
    ReadsStale (writeAndRestart ++ writePage 2 ⟨8, 6⟩ ++
      [.purgePage .listed ⟨1, 2⟩, .flushDoubleWrite .listed]) := by
  have different : bytes ⟨1, 2⟩ (⟨7, 5⟩ : Page Nat) ≠ (6, 8) := by decide
  refine ⟨readsStale_of_readAfter ?_ different, readsStale_of_readAfter ?_ different,
    readsStale_of_readAfter ?_ different⟩ <;> decide +kernel

end CsuDbms.DiskBufferPoolModel
