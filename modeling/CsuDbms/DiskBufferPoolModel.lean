import CsuDbms.BufferPoolHeaderModel
import CsuDbms.DoubleWriteBufferModel

/-!
# The buffer pool

Pure transcription of `DiskBufferPool`, `BPFrameManager` and `BufferPoolManager`: frames shared by
all files, over the double-write buffer, over the data files. The victims that the replacement
policy names are an argument, and so is the order in which the source walks its hash maps. A page is
its log sequence number and its data; the checksum, which only `load_pages` reads, tells a whole
slot from a torn one. Pages handed to the double-write buffer are recorded in `handed`, and file
writes in `issued`; nothing reads them.
-/

namespace CsuDbms.DiskBufferPoolModel

open BufferPoolHeaderModel DoubleWriteBufferModel

abbrev FrameId := DoubleWritePageKey

structure Page (Data : Type) where
  lsn : Int
  data : Data
  deriving DecidableEq

/-- How the data area of page 0 is read as a header, and the cleared data area. -/
structure PageFormat (Data : Type) where
  zero : Data
  header : Data → BPFileHeader
  setHeader : Data → BPFileHeader → Data

variable {Data : Type}

structure Frame (Data : Type) where
  page : Page Data
  dirty : Bool
  pinCount : Int

def Frame.canPurge (frame : Frame Data) : Bool := frame.pinCount = 0

def Frame.pin (frame : Frame Data) : Frame Data := { frame with pinCount := frame.pinCount + 1 }

def Frame.unpin (frame : Frame Data) : Frame Data := { frame with pinCount := frame.pinCount - 1 }

/-- The walks over the hash maps during one call: the double-write map when the
page is added to it (or when it is flushed), and the frames of one file. -/
structure Iteration (Data : Type) where
  pages : Option FrameId → List (DoubleWritePage (Page Data)) → List (DoubleWritePage (Page Data))
  pagesPerm : ∀ key list, (pages key list).Perm list
  frames : List FrameId → List FrameId
  framesPerm : ∀ list, (frames list).Perm list
  files : List Int → List Int
  filesPerm : ∀ list, (files list).Perm list

def Iteration.listed : Iteration Data where
  pages _ list := list
  pagesPerm _ list := List.Perm.refl list
  frames list := list
  framesPerm := List.Perm.refl
  files list := list
  filesPerm := List.Perm.refl

structure Config where
  /-- number of frames -/
  capacity : Nat
  /-- size at which the double-write buffer is flushed -/
  maxPages : Nat

structure Pool (Data : Type) where
  frames : AList fun _ : FrameId => Frame Data
  dblwr : Buffer (Page Data)
  disk : Disk (Page Data)
  opened : List Int
  handed : List (Page Data)
  issued : List (FileWrite (Page Data))

namespace Pool

def setFrame (pool : Pool Data) (key : FrameId) (frame : Frame Data) : Pool Data :=
  { pool with frames := pool.frames.insert key frame }

def freeFrame (pool : Pool Data) (key : FrameId) : Pool Data :=
  { pool with frames := pool.frames.erase key }

def perform (pool : Pool Data) (result : Buffer (Page Data) × List (FileWrite (Page Data))) :
    Pool Data :=
  { pool with
      dblwr := result.1
      disk := applyWrites pool.disk result.2
      issued := pool.issued ++ result.2 }

def addPage (config : Config) (walk : Iteration Data) (pool : Pool Data) (key : FrameId)
    (page : Page Data) : Pool Data :=
  let result := pool.dblwr.addPage config.maxPages key page
    (walk.pages (some key) (pool.dblwr.pages ++ [⟨key, pool.dblwr.pages.length, true, page⟩]))
  { pool.perform result with handed := pool.handed ++ [page] }

/-- `flush_page_internal`; the wait for the log has no effect on the pool. -/
def flushPageInternal (config : Config) (walk : Iteration Data) (pool : Pool Data)
    (key : FrameId) (frame : Frame Data) : Pool Data :=
  (pool.addPage config walk key frame.page).setFrame key { frame with dirty := false }

/-- What `purge_frame` and the purger of `allocate_frame` do with a frame that
nobody else has pinned. -/
def purgeFrame (config : Config) (walk : Iteration Data) (pool : Pool Data) (key : FrameId)
    (frame : Frame Data) : Pool Data :=
  (if frame.dirty then pool.flushPageInternal config walk key frame else pool).freeFrame key

def purgePage (config : Config) (walk : Iteration Data) (pool : Pool Data) (key : FrameId) :
    Pool Data × Except RC Unit :=
  match pool.frames.lookup key with
  | none => (pool, .ok ())
  | some frame =>
    if frame.canPurge then (pool.purgeFrame config walk key frame, .ok ())
    else (pool, .error .lockedUnlock)

/-- The loop of `allocate_frame`: until a frame is free, purge the victim the
policy names. The flag tells whether a frame was found. -/
def makeRoom (config : Config) (walk : Iteration Data) :
    List FrameId → Pool Data → Pool Data × Bool
  | victims, pool =>
    if pool.frames.keys.length < config.capacity then (pool, true)
    else
      match victims with
      | [] => (pool, false)
      | victim :: rest =>
        match pool.frames.lookup victim with
        | none => (pool, false)
        | some frame =>
          if frame.canPurge then
            makeRoom config walk rest (pool.purgeFrame config walk victim frame)
          else (pool, false)

def allocateFrame (config : Config) (walk : Iteration Data) (victims : List FrameId)
    (pool : Pool Data) (key : FrameId) : Pool Data × Bool :=
  match pool.frames.lookup key with
  | some _ => (pool, true)
  | none => makeRoom config walk victims pool

/-- `load_page`: the double-write buffer first, whatever its `valid` flag says,
then the data file. -/
def loadPage (pool : Pool Data) (key : FrameId) : Stored (Page Data) :=
  match pool.dblwr.find key with
  | some page => .whole page.page
  | none => pool.disk.data key

def headerKey (bufferPoolId : Int) : FrameId := ⟨bufferPoolId, 0⟩

def fileHeader (format : PageFormat Data) (pool : Pool Data) (bufferPoolId : Int) :
    Option (BPFileHeader × Frame Data) :=
  (pool.frames.lookup (headerKey bufferPoolId)).map fun frame =>
    (format.header frame.page.data, frame)

def fetchPage (config : Config) (walk : Iteration Data) (victims : List FrameId)
    (pool : Pool Data) (key : FrameId) : Pool Data × Except RC (Page Data) :=
  match pool.frames.lookup key with
  | some frame => (pool.setFrame key frame.pin, .ok frame.page)
  | none =>
    match makeRoom config walk victims pool with
    | (room, false) => (room, .error .bufferpoolNobuf)
    | (room, true) =>
      match room.loadPage key with
      | .torn => (room, .error .internal)
      | .whole page => (room.setFrame key ⟨page, false, 1⟩, .ok page)

def getThisPage (format : PageFormat Data) (config : Config) (walk : Iteration Data)
    (victims : List FrameId) (pool : Pool Data) (key : FrameId) :
    Pool Data × Except RC (Page Data) :=
  match pool.fileHeader format key.bufferPoolId with
  | none => (pool, .error .internal)
  | some (header, _) =>
    if header.checkPageNum key.pageNum then pool.fetchPage config walk victims key
    else (pool, .error .bufferpoolInvalidPageNum)

/-- Change the header through `file_header_`, mark page 0 dirty and stamp it. -/
def writeHeader (format : PageFormat Data) (pool : Pool Data) (bufferPoolId : Int)
    (frame : Frame Data) (header : BPFileHeader) (lsn : Int) : Pool Data :=
  pool.setFrame (headerKey bufferPoolId)
    { frame with
        page := { lsn := lsn, data := format.setHeader frame.page.data header }
        dirty := true }

/-- `allocate_page`; `lsn` is what the log handler returned for the entry. A
reused page is stamped with it, the first image of a page that extends the file
is not. -/
def allocatePage (format : PageFormat Data) (config : Config) (walk : Iteration Data)
    (victims : List FrameId) (lsn : Int) (pool : Pool Data) (bufferPoolId : Int) :
    Pool Data × Except RC FrameId :=
  match pool.fileHeader format bufferPoolId with
  | none => (pool, .error .internal)
  | some (header, hdrFrame) =>
    match header.freePage with
    | some pageNum =>
      let key : FrameId := ⟨bufferPoolId, pageNum⟩
      let marked := pool.writeHeader format bufferPoolId hdrFrame (header.reuse pageNum) lsn
      match marked.getThisPage format config walk victims key with
      | (pool, .error rc) => (pool, .error rc)
      | (pool, .ok _) =>
        match pool.frames.lookup key with
        | none => (pool, .error .internal)
        | some frame =>
          (pool.setFrame key
            { frame with page := ⟨lsn, format.zero⟩, dirty := true }, .ok key)
    | none =>
      if BPFileHeader.maxPageNum ≤ header.pageCount then (pool, .error .bufferpoolNobuf)
      else
        let key : FrameId := ⟨bufferPoolId, header.pageCount⟩
        -- the header is stamped before a frame is found, and marked dirty after
        let stamped := pool.setFrame (headerKey bufferPoolId)
          { hdrFrame with page := { hdrFrame.page with lsn := lsn } }
        match stamped.frames.lookup key with
        | some frame =>
          let marked := stamped.writeHeader format bufferPoolId hdrFrame header.extend lsn
          (marked.flushPageInternal config walk key
            { frame.pin with page := ⟨0, format.zero⟩ }, .ok key)
        | none =>
          match makeRoom config walk victims stamped with
          | (room, false) => (room, .error .bufferpoolNobuf)
          | (room, true) =>
            let marked := room.writeHeader format bufferPoolId hdrFrame header.extend lsn
            (marked.flushPageInternal config walk key ⟨⟨0, format.zero⟩, false, 1⟩,
              .ok key)

def disposePage (format : PageFormat Data) (lsn : Int) (pool : Pool Data) (key : FrameId) :
    Pool Data × Except RC Unit :=
  if key.pageNum = 0 then (pool, .error .internal)
  else
    match pool.fileHeader format key.bufferPoolId with
    | none => (pool, .error .internal)
    | some (header, hdrFrame) =>
      if header.checkPageNum key.pageNum = false then (pool, .error .bufferpoolInvalidPageNum)
      else
        let disposed := pool.writeHeader format key.bufferPoolId hdrFrame
          (header.dispose key.pageNum.toNat) lsn
        match pool.frames.lookup key with
        | none => (disposed, .ok ())
        | some frame =>
          if frame.canPurge then (disposed.freeFrame key, .ok ())
          else (pool, .error .lockedUnlock)

def flushPage (config : Config) (walk : Iteration Data) (pool : Pool Data) (key : FrameId) :
    Pool Data :=
  match pool.frames.lookup key with
  | none => pool
  | some frame => pool.flushPageInternal config walk key frame

def findList (walk : Iteration Data) (pool : Pool Data) (bufferPoolId : Int) : List FrameId :=
  walk.frames (pool.frames.keys.filter fun key => key.bufferPoolId = bufferPoolId)

def flushAllPages (config : Config) (walk : Iteration Data) (pool : Pool Data)
    (bufferPoolId : Int) : Pool Data :=
  (pool.findList walk bufferPoolId).foldl (fun pool key => pool.flushPage config walk key) pool

/-- `open_file`: the header page gets a frame that stays pinned. A frame left
over from an earlier use of the file is loaded again. -/
def openFile (config : Config) (walk : Iteration Data) (victims : List FrameId)
    (pool : Pool Data) (bufferPoolId : Int) : Pool Data × Except RC Unit :=
  let key := headerKey bufferPoolId
  match pool.allocateFrame config walk victims key with
  | (room, false) => (room, .error .bufferpoolNobuf)
  | (room, true) =>
    match room.loadPage key with
    | .torn => (room, .error .internal)
    | .whole page =>
      let frame : Frame Data := match room.frames.lookup key with
        | some frame => { frame.pin with page := page }
        | none => ⟨page, false, 1⟩
      ({ room.setFrame key frame with opened := bufferPoolId :: room.opened }, .ok ())

/-- One round of `purge_all_pages`; the flag tells whether every frame so far
could be purged. -/
def purgeNext (config : Config) (walk : Iteration Data) (result : Pool Data × Bool)
    (key : FrameId) : Pool Data × Bool :=
  match result.1.purgePage config walk key with
  | (pool, .ok ()) => (pool, result.2)
  | (pool, .error _) => (pool, false)

def purgeAllPages (config : Config) (walk : Iteration Data) (pool : Pool Data)
    (bufferPoolId : Int) : Pool Data × Bool :=
  (pool.findList walk bufferPoolId).foldl (purgeNext config walk) (pool, true)

def unpinHeader (pool : Pool Data) (bufferPoolId : Int) : Pool Data :=
  match pool.frames.lookup (headerKey bufferPoolId) with
  | some frame => pool.setFrame (headerKey bufferPoolId) frame.unpin
  | none => pool

/-- `close_file` of the manager. A pinned frame makes it leave the double-write
buffer as it is; the file is forgotten in either case. -/
def closeFile (config : Config) (walk : Iteration Data) (pool : Pool Data) (bufferPoolId : Int) :
    Pool Data :=
  let closed := match (pool.unpinHeader bufferPoolId).purgeAllPages config walk bufferPoolId with
    | (purged, true) => purged.perform (purged.dblwr.clearPages bufferPoolId)
    | (purged, false) => purged
  { closed with opened := closed.opened.filter fun id => id ≠ bufferPoolId }

/-- `flush_page` of the double-write buffer, which is also its `recover`. -/
def flushDoubleWrite (walk : Iteration Data) (pool : Pool Data) : Pool Data :=
  pool.perform (DoubleWriteBufferModel.flushPage (walk.pages none pool.dblwr.pages))

/-- The manager is destroyed, which closes every file, drops the frames and
flushes the double-write buffer, and a new one opens the double-write file. -/
def restart (config : Config) (walk : Iteration Data) (pool : Pool Data) : Pool Data :=
  let closed := (walk.files pool.opened).foldl (fun pool id => pool.closeFile config walk id) pool
  let flushed := closed.flushDoubleWrite walk
  { flushed with frames := ∅, dblwr := loadPages flushed.disk, opened := [] }

end Pool

end CsuDbms.DiskBufferPoolModel
