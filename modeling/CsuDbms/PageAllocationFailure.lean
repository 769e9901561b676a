import CsuDbms.DiskBufferPoolModel
import CsuDbms.PageAllocation

/-!
# What a failed `allocate_page` leaves behind

`allocate_page` once more, now with every call in it that may fail: appending the log
entry, flushing the frame that has to make room, reading a page that is used again, and
flushing the page that extends the file. What these calls return is an argument, and so
is the double-write buffer that a failed flush leaves.
-/

namespace CsuDbms.PageAllocationFailure

open BufferPoolHeaderModel DoubleWriteBufferModel DiskBufferPoolModel PageAllocation Option BPFileHeader AList

variable {Data : Type}

structure File (Data : Type) where
  pool : DiskBufferPoolModel.Pool Data
  log : List LogEntry

/-- `add_page` of the double-write buffer gave up half way. -/
structure FailedFlush (Data : Type) where
  dblwr : Buffer (Page Data)
  writes : List (FileWrite (Page Data))

structure Victim (Data : Type) where
  key : FrameId
  failed : Option (FailedFlush Data)

structure Calls (Data : Type) where
  log : Except RC Int
  victims : List (Victim Data)
  readFailed : Option RC
  extendFailed : Option (FailedFlush Data)

variable (format : PageFormat Data) (config : Config) (walk : Iteration Data)

/-- `flush_page_internal`; a failed one leaves the frame dirty as it was. -/
def flushPageInternal (pool : DiskBufferPoolModel.Pool Data) (key : FrameId) (frame : Frame Data) :
    Option (FailedFlush Data) → DiskBufferPoolModel.Pool Data × Bool
  | none => (pool.flushPageInternal config walk key frame, true)
  | some failed => ((pool.perform (failed.dblwr, failed.writes)).setFrame key frame, false)

/-- One round of `purge_frames`: the victim is pinned, flushed, and then freed or unpinned. -/
def purgeVictim (pool : DiskBufferPoolModel.Pool Data) (victim : Victim Data)
    (frame : Frame Data) : DiskBufferPoolModel.Pool Data × Bool :=
  if frame.dirty then
    match flushPageInternal config walk pool victim.key frame.pin victim.failed with
    | (pool, true) => (pool.freeFrame victim.key, true)
    | (pool, false) => (pool.setFrame victim.key frame.pin.unpin, false)
  else (pool.freeFrame victim.key, true)

def makeRoom : List (Victim Data) → DiskBufferPoolModel.Pool Data →
    DiskBufferPoolModel.Pool Data × Bool
  | victims, pool =>
    if pool.frames.keys.length < config.capacity then (pool, true)
    else
      match victims with
      | [] => (pool, false)
      | victim :: rest =>
        match pool.frames.lookup victim.key with
        | none => (pool, false)
        | some frame =>
          if frame.canPurge then
            match purgeVictim config walk pool victim frame with
            | (pool, true) => makeRoom rest pool
            | (pool, false) => (pool, false)
          else (pool, false)

/-- `allocate_frame`. What a new frame held before is overwritten by every caller. -/
def allocateFrame (victims : List (Victim Data)) (pool : DiskBufferPoolModel.Pool Data)
    (key : FrameId) : DiskBufferPoolModel.Pool Data × Bool :=
  match pool.frames.lookup key with
  | some frame => (pool.setFrame key frame.pin, true)
  | none =>
    match makeRoom config walk victims pool with
    | (room, false) => (room, false)
    | (room, true) => (room.setFrame key ⟨⟨0, format.zero⟩, false, 1⟩, true)

def loadPage (calls : Calls Data) (pool : DiskBufferPoolModel.Pool Data) (key : FrameId) :
    Except RC (Page Data) :=
  match pool.dblwr.find key, calls.readFailed, pool.disk.data key with
  | some page, _, _ => .ok page.page
  | none, some rc, _ => .error rc
  | none, none, .torn => .error .internal
  | none, none, .whole page => .ok page

def purgeFrame (pool : DiskBufferPoolModel.Pool Data) (key : FrameId) :
    DiskBufferPoolModel.Pool Data :=
  match pool.frames.lookup key with
  | none => pool
  | some frame => if frame.pinCount ≠ 1 then pool else pool.purgeFrame config walk key frame

def getThisPage (calls : Calls Data) (pool : DiskBufferPoolModel.Pool Data) (key : FrameId) :
    DiskBufferPoolModel.Pool Data × Except RC (Page Data) :=
  match pool.fileHeader format key.bufferPoolId with
  | none => (pool, .error .internal)
  | some (header, _) =>
    if header.checkPageNum key.pageNum then
      match pool.frames.lookup key with
      | some frame => (pool.setFrame key frame.pin, .ok frame.page)
      | none =>
        match allocateFrame format config walk calls.victims pool key with
        | (room, false) => (room, .error .bufferpoolNobuf)
        | (room, true) =>
          match loadPage calls room key with
          | .error rc => (purgeFrame config walk room key, .error rc)
          | .ok page => (room.setFrame key ⟨page, false, 1⟩, .ok page)
    else (pool, .error .bufferpoolInvalidPageNum)

def allocatePage (calls : Calls Data) (file : File Data) (bufferPoolId : Int) :
    File Data × Except RC FrameId :=
  match file.pool.fileHeader format bufferPoolId with
  | none => (file, .error .internal)
  | some (header, hdrFrame) =>
    match header.freePage with
    | some pageNum =>
      match calls.log with
      | .error rc => (file, .error rc)
      | .ok lsn =>
        let key : FrameId := ⟨bufferPoolId, pageNum⟩
        let log := file.log ++ [⟨lsn, .allocate, pageNum⟩]
        let marked :=
          file.pool.writeHeader format bufferPoolId hdrFrame (header.reuse pageNum) lsn
        match getThisPage format config walk calls marked key with
        | (pool, .error rc) => (⟨pool, log⟩, .error rc)
        | (pool, .ok _) =>
          match pool.frames.lookup key with
          | none => (⟨pool, log⟩, .error .internal)  -- the frame was just pinned
          | some frame =>
            (⟨pool.setFrame key
              { frame with page := ⟨lsn, format.zero⟩, dirty := true }, log⟩, .ok key)
    | none =>
      if maxPageNum ≤ header.pageCount then (file, .error .bufferpoolNobuf)
      else
        match calls.log with
        | .error rc => (file, .error rc)
        | .ok lsn =>
          let key : FrameId := ⟨bufferPoolId, header.pageCount⟩
          let log := file.log ++ [⟨lsn, .allocate, header.pageCount⟩]
          -- the header page is stamped before a frame is found, and marked dirty after
          let stamped := file.pool.setFrame (Pool.headerKey bufferPoolId)
            { hdrFrame with page := { hdrFrame.page with lsn := lsn } }
          match allocateFrame format config walk calls.victims stamped key with
          | (room, false) => (⟨room, log⟩, .error .bufferpoolNobuf)
          | (room, true) =>
            let marked := room.writeHeader format bufferPoolId hdrFrame header.extend lsn
            match marked.frames.lookup key with
            | none => (⟨marked, log⟩, .error .internal)  -- the frame was just pinned
            | some frame =>
              -- an error of this flush is only logged
              (⟨(flushPageInternal config walk marked key
                { frame with page := ⟨0, format.zero⟩ } calls.extendFailed).1, log⟩,
                .ok key)

variable {frame : Frame Data}

section Kept

structure Kept (before after : DiskBufferPoolModel.Pool Data) : Prop where
  pins : ∀ key frame, after.frames.lookup key = some frame →
    ∃ old, before.frames.lookup key = some old ∧ frame.pinCount = old.pinCount
  pinned : ∀ key frame, before.frames.lookup key = some frame → frame.canPurge = false →
    after.frames.lookup key = some frame

variable {before middle after : DiskBufferPoolModel.Pool Data}

theorem lookup_setFrame (pool : DiskBufferPoolModel.Pool Data) (key : FrameId)
    (frame : Frame Data) : (pool.setFrame key frame).frames.lookup key = some frame :=
  lookup_insert _

theorem Kept.refl (pool : DiskBufferPoolModel.Pool Data) : Kept pool pool :=
  ⟨fun _ frame found => ⟨frame, found, rfl⟩, fun _ _ found _ => found⟩

theorem Kept.trans (first : Kept before middle) (second : Kept middle after) :
    Kept before after := by
  refine ⟨fun key frame found => ?_, fun key frame found busy => ?_⟩
  · obtain ⟨between, known, same⟩ := second.pins key frame found
    obtain ⟨old, there, equal⟩ := first.pins key between known
    exact ⟨old, there, same.trans equal⟩
  · exact second.pinned key frame (first.pinned key frame found busy) busy

variable {key : FrameId}

theorem Kept.free (found : before.frames.lookup key = some frame) (idle : frame.canPurge = true)
    (others : ∀ other, other ≠ key → after.frames.lookup other = before.frames.lookup other)
    (gone : after.frames.lookup key = none) : Kept before after := by
  refine ⟨fun other frame there => ?_, fun other pinned there busy => ?_⟩
  · have apart : other ≠ key := by
      rintro rfl
      exact absurd there (by simp [gone])
    exact ⟨frame, others other apart ▸ there, rfl⟩
  · have apart : other ≠ key := by
      rintro rfl
      rw [found, some.injEq] at there
      exact absurd idle (by simp [there, busy])
    rw [others other apart, there]

theorem Kept.of_frames (same : ∀ key, after.frames.lookup key = before.frames.lookup key) :
    Kept before after :=
  ⟨fun key frame found => ⟨frame, same key ▸ found, rfl⟩, fun key _ found _ => (same key).trans found⟩

variable {pool : DiskBufferPoolModel.Pool Data}

theorem kept_purgeVictim {victim : Victim Data} (found : pool.frames.lookup victim.key = some frame)
    (idle : frame.canPurge = true) :
    Kept pool (purgeVictim config walk pool victim frame).1 := by
  rw [purgeVictim]
  by_cases dirty : frame.dirty = true
  · rw [if_pos dirty]
    cases victim.failed with
    | none =>
      refine Kept.free found idle (fun other apart => ?_) (lookup_erase ..)
      simp only [flushPageInternal, Pool.freeFrame, Pool.flushPageInternal, Pool.setFrame,
        lookup_erase_ne apart, lookup_insert_ne apart]
      rfl
    | some failed =>
      refine Kept.of_frames fun other => ?_
      by_cases same : other = victim.key
      · rw [same, found]
        simp [flushPageInternal, Pool.setFrame, Frame.pin, Frame.unpin]
      · simp only [flushPageInternal, Pool.setFrame, lookup_insert_ne same]
        rfl
  · rw [if_neg dirty]
    exact Kept.free found idle (fun other apart => lookup_erase_ne apart)
      (lookup_erase ..)

theorem kept_makeRoom (victims : List (Victim Data)) (pool : DiskBufferPoolModel.Pool Data) :
    Kept pool (makeRoom config walk victims pool).1 := by
  fun_induction makeRoom config walk victims pool with
  | case1 | case2 | case3 | case6 => exact .refl _
  | case4 pool victim rest _ frame found idle freed purged ih =>
    exact (purged ▸ kept_purgeVictim config walk found idle).trans ih
  | case5 pool victim rest _ frame found idle freed purged =>
    exact purged ▸ kept_purgeVictim config walk found idle

variable {victims : List (Victim Data)} {room : DiskBufferPoolModel.Pool Data}

theorem allocateFrame_spec (victims : List (Victim Data)) (pool : DiskBufferPoolModel.Pool Data)
    (key : FrameId) :
    match allocateFrame format config walk victims pool key with
    | (room, false) => Kept pool room
    | (room, true) => ∃ frame, room.frames.lookup key = some frame := by
  rw [allocateFrame]
  cases found : pool.frames.lookup key with
  | some frame => exact ⟨frame.pin, lookup_insert _⟩
  | none =>
    have kept := kept_makeRoom config walk victims pool
    dsimp only
    generalize makeRoom config walk victims pool = result at kept
    obtain ⟨freed, success⟩ := result
    cases success with
    | true => exact ⟨_, lookup_setFrame ..⟩
    | false => exact kept

theorem kept_undone (absent : pool.frames.lookup key = none)
    (made : allocateFrame format config walk victims pool key = (room, true)) :
    Kept pool (purgeFrame config walk room key) := by
  rw [allocateFrame] at made
  simp only [absent] at made
  have kept := kept_makeRoom config walk victims pool
  generalize makeRoom config walk victims pool = result at made kept
  obtain ⟨freed, success⟩ := result
  cases success with
  | false => exact absurd made (by simp)
  | true =>
    obtain ⟨rfl, _⟩ := Prod.mk.inj made
    have fresh : (freed.setFrame key ⟨⟨0, format.zero⟩, false, 1⟩).frames.lookup key =
        some ⟨⟨0, format.zero⟩, false, 1⟩ := lookup_insert _
    simp only [purgeFrame, fresh, ne_eq, not_true_eq_false, if_false, Pool.purgeFrame,
      Bool.false_eq_true]
    have frames : ∀ other, other ≠ key →
        ((freed.setFrame key ⟨⟨0, format.zero⟩, false, 1⟩).freeFrame key).frames.lookup other =
          freed.frames.lookup other := fun other apart => by
      rw [Pool.freeFrame, Pool.setFrame, lookup_erase_ne apart,
        lookup_insert_ne apart]
    refine ⟨fun other frame there => ?_, fun other frame there busy => ?_⟩
    · have apart : other ≠ key := by
        rintro rfl
        rw [Pool.freeFrame, lookup_erase] at there
        exact absurd there (by simp)
      exact kept.pins other frame (frames other apart ▸ there)
    · have apart : other ≠ key := by
        rintro rfl
        exact absurd there (by simp [absent])
      rw [frames other apart]
      exact kept.pinned other frame there busy

theorem getThisPage_spec (calls : Calls Data) (pool : DiskBufferPoolModel.Pool Data)
    (key : FrameId) :
    match getThisPage format config walk calls pool key with
    | (after, .error _) => Kept pool after
    | (after, .ok _) => ∃ frame, after.frames.lookup key = some frame := by
  rw [getThisPage]
  cases opened : pool.fileHeader format key.bufferPoolId with
  | none => exact .refl pool
  | some found =>
    dsimp only
    split_ifs
    · cases present : pool.frames.lookup key with
      | some frame => exact ⟨_, lookup_setFrame ..⟩
      | none =>
        have spec := allocateFrame_spec format config walk calls.victims pool key
        cases made : allocateFrame format config walk calls.victims pool key with
        | mk room success =>
          rw [made] at spec
          cases success with
          | false => exact spec
          | true =>
            dsimp only
            cases load : loadPage calls room key with
            | error rc => exact kept_undone format config walk present made
            | ok page => exact ⟨_, lookup_setFrame ..⟩
    · exact .refl pool

end Kept

section Atomicity

def pinsOf (file : File Data) (key : FrameId) : Option Int :=
  (file.pool.frames.lookup key).map Frame.pinCount

def PinsKept (before after : File Data) : Prop :=
  ∀ key count, (pinsOf after key = some count → pinsOf before key = some count) ∧
    (pinsOf before key = some count → count ≠ 0 → pinsOf after key = some count)

def header (format : PageFormat Data) (file : File Data) (bufferPoolId : Int) :
    Option BPFileHeader :=
  (file.pool.fileHeader format bufferPoolId).map Prod.fst

/-- Redoing what the log has got more changes nothing in the header that was there before. -/
def NothingToRedo (format : PageFormat Data) (before after : File Data) (bufferPoolId : Int) :
    Prop :=
  ∀ header frame, before.pool.fileHeader format bufferPoolId = some (header, frame) →
    replay (after.log.drop before.log.length) (header, frame.page.lsn) =
      .ok (header, frame.page.lsn)

variable {before after : File Data} {bufferPoolId : Int}

theorem PinsKept.refl (file : File Data) : PinsKept file file :=
  fun _ _ => ⟨id, fun found _ => found⟩

/-- A call that keeps the pins after the header page was written in its frame. -/
theorem pinsKept_of_header {written : Frame Data}
    (opened : before.pool.frames.lookup (Pool.headerKey bufferPoolId) = some frame)
    (kept : Kept (before.pool.setFrame (Pool.headerKey bufferPoolId) written) after.pool)
    (same : written.pinCount = frame.pinCount) : PinsKept before after := by
  have pins : ∀ key, ((before.pool.setFrame (Pool.headerKey bufferPoolId) written).frames.lookup
      key).map Frame.pinCount = pinsOf before key := by
    intro key
    by_cases isHeader : key = Pool.headerKey bufferPoolId
    · rw [isHeader, lookup_setFrame, pinsOf, opened, map_some, map_some, same]
    · rw [Pool.setFrame, lookup_insert_ne isHeader]
      rfl
  intro key count
  rw [← pins key]
  constructor
  · intro found
    obtain ⟨now, there, rfl⟩ := map_eq_some_iff.mp found
    obtain ⟨old, known, equal⟩ := kept.pins key now there
    rw [known, map_some, equal]
  · intro found busy
    obtain ⟨old, known, rfl⟩ := map_eq_some_iff.mp found
    rw [pinsOf, kept.pinned key old known (by simpa [Frame.canPurge] using busy)]
    rfl

variable {file : File Data}

section

variable (opened : file.pool.frames.lookup (Pool.headerKey bufferPoolId) = some frame)

include opened

theorem fileHeader_of_frame : file.pool.fileHeader format bufferPoolId =
    some (format.header frame.page.data, frame) := by
  rw [Pool.fileHeader, opened]
  rfl

theorem header_of_frame :
    header format file bufferPoolId = some (format.header frame.page.data) := by
  rw [header, fileHeader_of_frame format opened]
  rfl

end

theorem reuse_ne {old : BPFileHeader} {page : Nat} (free : old.freePage = some page) :
    old.reuse page ≠ old := by
  intro same
  have clear := (freePage_eq_some free).2
  have bits := congrFun (congrArg bitmap same) page
  rw [clear] at bits
  simp [reuse] at bits

variable {lsn : Int}

theorem failed_reuse {calls : Calls Data} {after : File Data} {page : Nat} {rc : RC}
    (lawful : ∀ data header, format.header (format.setHeader data header) = header)
    (opened : file.pool.frames.lookup (Pool.headerKey bufferPoolId) = some frame)
    (pinned : frame.canPurge = false) (free : (format.header frame.page.data).freePage = some page)
    (appended : calls.log = .ok lsn)
    (failed : allocatePage format config walk calls file bufferPoolId = (after, .error rc)) :
    PinsKept file after ∧
      header format after bufferPoolId = some ((format.header frame.page.data).reuse page) := by
  have found := fileHeader_of_frame format opened
  simp only [allocatePage, found, free, appended] at failed
  have kept : Kept (file.pool.writeHeader format bufferPoolId frame
      ((format.header frame.page.data).reuse page) lsn) after.pool := by
    have spec := getThisPage_spec format config walk calls (file.pool.writeHeader format
      bufferPoolId frame ((format.header frame.page.data).reuse page) lsn) ⟨bufferPoolId, page⟩
    generalize getThisPage format config walk calls _ _ = result at failed spec
    obtain ⟨pool, outcome⟩ := result
    cases outcome with
    | error code =>
      simp only [Prod.mk.injEq] at failed
      exact failed.1 ▸ spec
    | ok content =>
      obtain ⟨frame, there⟩ := spec
      simp [there] at failed
  refine ⟨pinsKept_of_header opened kept rfl, ?_⟩
  rw [header_of_frame format (kept.pinned _ _ (lookup_setFrame ..) pinned), lawful]

theorem failed_extend {calls : Calls Data} {after : File Data} {rc : RC}
    (opened : file.pool.frames.lookup (Pool.headerKey bufferPoolId) = some frame)
    (pinned : frame.canPurge = false) (full : (format.header frame.page.data).freePage = none)
    (room : ¬ maxPageNum ≤ (format.header frame.page.data).pageCount)
    (appended : calls.log = .ok lsn)
    (failed : allocatePage format config walk calls file bufferPoolId = (after, .error rc)) :
    PinsKept file after ∧
      header format after bufferPoolId = header format file bufferPoolId ∧
      after.log = file.log ++ [⟨lsn, .allocate, (format.header frame.page.data).pageCount⟩] := by
  have found := fileHeader_of_frame format opened
  simp only [allocatePage, found, full, if_neg room, appended] at failed
  have spec := allocateFrame_spec format config walk calls.victims
    (file.pool.setFrame (Pool.headerKey bufferPoolId)
      { frame with page := { frame.page with lsn := lsn } })
    ⟨bufferPoolId, (format.header frame.page.data).pageCount⟩
  cases result : allocateFrame format config walk calls.victims _ _ with
  | mk pool success =>
    rw [result] at spec
    cases success with
    | true =>
      obtain ⟨made, there⟩ := spec
      have still : ∃ kept, (pool.writeHeader format bufferPoolId frame
          (format.header frame.page.data).extend lsn).frames.lookup
          ⟨bufferPoolId, (format.header frame.page.data).pageCount⟩ = some kept := by
        rw [Pool.writeHeader, Pool.setFrame]
        by_cases isHeader : (⟨bufferPoolId, (format.header frame.page.data).pageCount⟩ : FrameId) =
            Pool.headerKey bufferPoolId
        · rw [isHeader]
          exact ⟨_, lookup_insert _⟩
        · exact ⟨made, by rw [lookup_insert_ne isHeader, there]⟩
      obtain ⟨kept, there⟩ := still
      simp [result, there] at failed
    | false =>
      simp only [result, Prod.mk.injEq] at failed
      rw [← failed.1]
      refine ⟨pinsKept_of_header opened spec rfl, ?_, rfl⟩
      rw [header_of_frame format opened,
        header_of_frame format (spec.pinned _ _ (lookup_setFrame ..) pinned)]

theorem redo_extends {old : BPFileHeader} {hdrLsn : Int} (later : hdrLsn < lsn)
    (room : ¬ maxPageNum ≤ old.pageCount) :
    replay [⟨lsn, .allocate, old.pageCount⟩] (old, hdrLsn) ≠ .ok (old, hdrLsn) := by
  intro same
  have redone : replay [⟨lsn, .allocate, old.pageCount⟩] (old, hdrLsn) = .ok (old.extend, lsn) := by
    simp [replay, redo, redoAllocatePage, room, Int.not_le.mpr later, pure, bind,
      Except.bind, Except.pure]
  rw [redone, Except.ok.injEq, Prod.mk.injEq] at same
  exact absurd same.2 (by omega)

/-- The pins are right whatever fails. The header is as before unless a page is used again and
its entry is in the log; a crash makes nothing of the call only if its entry was not written. -/
theorem allocatePage_error_atomic_iff
    (lawful : ∀ data header, format.header (format.setHeader data header) = header)
    (file : File Data) (bufferPoolId : Int) (calls : Calls Data) (frame : Frame Data)
    (opened : file.pool.frames.lookup (Pool.headerKey bufferPoolId) = some frame)
    (pinned : frame.canPurge = false)
    (later : ∀ lsn, calls.log = .ok lsn → frame.page.lsn < lsn) (after : File Data) (rc : RC)
    (failed : allocatePage format config walk calls file bufferPoolId = (after, .error rc)) :
    PinsKept file after ∧
      (header format after bufferPoolId = header format file bufferPoolId ↔
        (∃ code, calls.log = .error code) ∨ (format.header frame.page.data).freePage = none) ∧
      (header format after bufferPoolId = header format file bufferPoolId ∧
          NothingToRedo format file after bufferPoolId ↔
        (∃ code, calls.log = .error code) ∨
          (format.header frame.page.data).freePage = none ∧
            maxPageNum ≤ (format.header frame.page.data).pageCount) := by
  have found := fileHeader_of_frame format opened
  have quiet : NothingToRedo format file file bufferPoolId := by
    intro header frame _
    rw [List.drop_length]
    rfl
  cases free : (format.header frame.page.data).freePage with
  | some page =>
    cases appended : calls.log with
    | error code =>
      simp only [allocatePage, found, free, appended, Prod.mk.injEq] at failed
      rw [← failed.1]
      simp [PinsKept.refl, quiet]
    | ok lsn =>
      obtain ⟨pins, changed⟩ :=
        failed_reuse format config walk lawful opened pinned free appended failed
      have different : header format after bufferPoolId ≠ header format file bufferPoolId := by
        rw [changed, header_of_frame format opened, ne_eq, Option.some.injEq]
        exact reuse_ne free
      simp [pins, different]
  | none =>
    by_cases room : maxPageNum ≤ (format.header frame.page.data).pageCount
    · simp only [allocatePage, found, free, if_pos room, Prod.mk.injEq] at failed
      rw [← failed.1]
      simp [PinsKept.refl, quiet, room]
    · cases appended : calls.log with
      | error code =>
        simp only [allocatePage, found, free, if_neg room, appended, Prod.mk.injEq] at failed
        rw [← failed.1]
        simp [PinsKept.refl, quiet]
      | ok lsn =>
        obtain ⟨pins, same, log⟩ :=
          failed_extend format config walk opened pinned free room appended failed
        have redone : ¬ NothingToRedo format file after bufferPoolId := by
          intro quiet
          have replayed := quiet _ _ found
          rw [log, List.drop_left] at replayed
          exact redo_extends (later lsn appended) room replayed
        simp [pins, same, redone, room]

def plainFormat : PageFormat BPFileHeader := ⟨.create, id, fun _ header => header⟩

def oneFrame (header : BPFileHeader) : File BPFileHeader where
  pool :=
    { frames := insert ⟨1, 0⟩ ⟨⟨0, header⟩, false, 1⟩ ∅
      dblwr := ⟨[], 0⟩
      disk := ⟨0, fun _ => .torn, fun _ => .torn⟩
      opened := [1]
      handed := []
      issued := [] }
  log := []

def appendOnly : Calls BPFileHeader := ⟨.ok 7, [], none, none⟩

theorem allocatePage_error_extending :
    PinsKept (oneFrame .create)
        (allocatePage plainFormat ⟨1, 16⟩ .listed appendOnly (oneFrame .create) 1).1 ∧
      header plainFormat
          (allocatePage plainFormat ⟨1, 16⟩ .listed appendOnly (oneFrame .create) 1).1 1 =
        header plainFormat (oneFrame .create) 1 := by
  have failed : (allocatePage plainFormat ⟨1, 16⟩ .listed appendOnly (oneFrame .create) 1).2 =
      .error .bufferpoolNobuf := by decide
  have all := allocatePage_error_atomic_iff plainFormat ⟨1, 16⟩ .listed (fun _ _ => rfl)
    (oneFrame .create) 1 appendOnly ⟨⟨0, .create⟩, false, 1⟩ rfl rfl
    (by rintro lsn ⟨⟩; decide) _ .bufferpoolNobuf (Prod.ext rfl failed)
  exact ⟨all.1, all.2.1.mpr (.inr (by decide))⟩

def holeInFile : BPFileHeader := ⟨2, 1, fun page => page = 0⟩

theorem allocatePage_error_leaves_page :
    (allocatePage plainFormat ⟨1, 16⟩ .listed appendOnly (oneFrame holeInFile) 1).2 =
        .error .bufferpoolNobuf ∧
      (header plainFormat
          (allocatePage plainFormat ⟨1, 16⟩ .listed appendOnly (oneFrame holeInFile) 1).1 1).map
          (fun header => (header.allocatedPages, header.bitmap 1)) = some (2, true) ∧
      (header plainFormat (oneFrame holeInFile) 1).map
          (fun header => (header.allocatedPages, header.bitmap 1)) = some (1, false) := by
  decide

end Atomicity

end CsuDbms.PageAllocationFailure
