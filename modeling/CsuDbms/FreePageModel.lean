import CsuDbms.PageAllocation
import CsuDbms.RecordPageLaws

/-!
# The pages with room that a record file remembers

`RecordFileHandler` keeps a set of page numbers, filled from the file when it is opened and
changed by every insertion and deletion. The pages are byte areas and the file's header is
that of `PageAllocation`. What the calls return that may fail is an argument of every
operation. The log of a database is replayed when its tables are already open.

An operation on the header page as a record page is left out.
-/

namespace CsuDbms.FreePageModel

open BufferPoolHeaderModel LittleEndian RecordPageBytes PageAllocation

structure RecordFileHandler where
  pool : Pool
  pages : Nat → Area
  freePages : Finset Nat
  /-- The pages of the file that were created, or had a slot freed, since it was opened. -/
  worked : Finset Nat

/-- What the calls that may fail return: fetching a page, logging an allocation or a disposal,
finding a frame, logging a new page. `pinned` says whether somebody else uses a disposed page, and
`order` how the set of pages is iterated. -/
structure Calls where
  order : List Nat
  fetch : Nat → Option RC
  lsn : Option Int
  framed : Bool
  initLog : Option RC
  pinned : Bool

def isFull (area : Area) : Bool := area.recordCapacity ≤ area.recordNum

def isEmpty (area : Area) : Bool := area.recordNum = 0

def initPage (calls : Calls) (pool : Pool) (page : Nat) : Except RC Unit :=
  if pool.header.checkPageNum page then
    match calls.fetch page with
    | none => .ok ()
    | some rc => .error rc
  else .error .bufferpoolInvalidPageNum

namespace RecordFileHandler

/-- The loop over the pages thought to have room; full ones leave the set. -/
def findFreePage (calls : Calls) (handler : RecordFileHandler) :
    List Nat → Finset Nat → Except RC (Option Nat) × Finset Nat
  | [], freePages => (.ok none, freePages)
  | page :: rest, freePages =>
    match initPage calls handler.pool page with
    | .error rc => (.error rc, freePages)
    | .ok _ =>
      if isFull (handler.pages page) then
        findFreePage calls handler rest (freePages.erase page)
      else (.ok (some page), freePages)

def insertIntoPage (handler : RecordFileHandler) (page : Nat) (data : List Byte) :
    Option (RecordFileHandler × Except RC (Nat × Int)) :=
  (RecordPageBytes.insertRecord (handler.pages page) data).map fun result =>
    ({ handler with pages := Function.update handler.pages page result.1 },
      match result.2 with
      | .inserted slot => .ok (page, slot)
      | .error rc => .error rc
      | _ => .error .internal)

/-- The branch of `insert_record` without a page that has room. The page it allocates is
all zeros. -/
def insertIntoNewPage (size : Nat) (calls : Calls) (handler : RecordFileHandler)
    (data : List Byte) : Option (RecordFileHandler × Except RC (Nat × Int)) :=
  match allocatePage handler.pool calls.lsn calls.framed with
  | (.error rc, pool) => some ({ handler with pool := pool }, .error rc)
  | (.ok page, pool) =>
    let created : RecordFileHandler :=
      { handler with
          pool := pool
          pages := Function.update handler.pages page (initEmptyPage (fun _ => 0) size)
          worked := insert page handler.worked }
    match calls.initLog with
    | some rc => some (created, .error rc)
    | none =>
      insertIntoPage { created with freePages := insert page created.freePages } page data

def insertRecord (size : Nat) (calls : Calls) (handler : RecordFileHandler) (data : List Byte) :
    Option (RecordFileHandler × Except RC (Nat × Int)) :=
  match findFreePage calls handler calls.order handler.freePages with
  | (.error rc, freePages) => some ({ handler with freePages := freePages }, .error rc)
  | (.ok (some page), freePages) =>
    insertIntoPage { handler with freePages := freePages } page data
  | (.ok none, freePages) =>
    insertIntoNewPage size calls { handler with freePages := freePages } data

/-- What `delete_record` does with the page a record was deleted from. -/
def releasePage (calls : Calls) (handler : RecordFileHandler) (page : Nat) : RecordFileHandler :=
  if isEmpty (handler.pages page) then
    match disposePage handler.pool page calls.pinned calls.lsn with
    | (.error _, pool) =>
      { handler with
          pool := pool
          freePages := insert page (handler.freePages.erase page)
          worked := insert page handler.worked }
    | (.ok _, pool) =>
      { handler with
          pool := pool
          freePages := handler.freePages.erase page
          worked := handler.worked.erase page }
  else
    { handler with
        freePages := insert page handler.freePages
        worked := insert page handler.worked }

def deleteRecord (calls : Calls) (handler : RecordFileHandler) (page : Nat) (slot : Int) :
    Option (RecordFileHandler × Except RC Unit) :=
  match initPage calls handler.pool page with
  | .error rc => some (handler, .error rc)
  | .ok _ =>
    if page = 0 then none
    else
      (RecordPageBytes.deleteRecord (handler.pages page) slot).map fun result =>
        let deleted := { handler with pages := Function.update handler.pages page result.1 }
        match result.2 with
        | .error rc => (deleted, .error rc)
        | _ => (releasePage calls deleted page, .ok ())

end RecordFileHandler

/-- A data file as a crash leaves it: its header, its pages and their numbers. -/
structure File where
  pool : Pool
  pages : Nat → Area
  lsns : Nat → Int

/-- The loop of `init_free_pages`, which ends at the first page that cannot be fetched. -/
def initFreePages (calls : Calls) (pool : Pool) (pages : Nat → Area) : List Nat → Finset Nat
  | [] => ∅
  | page :: rest =>
    match initPage calls pool page with
    | .error _ => ∅
    | .ok _ =>
      if isFull (pages page) then initFreePages calls pool pages rest
      else insert page (initFreePages calls pool pages rest)

/-- `RecordFileHandler::init` on a file, over its allocated pages besides the first. -/
def openFile (calls : Calls) (file : File) : RecordFileHandler where
  pool := file.pool
  pages := file.pages
  freePages := initFreePages calls file.pool file.pages
    ((List.range' 1 (file.pool.header.pageCount - 1)).filter fun page =>
      file.pool.header.bitmap page)
  worked := ∅

inductive RecordOperation where
  | initPage (recordSize : Nat)
  | insert (data : List Byte)
  | delete (slot : Int)
  | update (slot : Int) (data : List Byte)

/-- `replay_init_page`, `replay_insert`, `replay_delete` and `replay_update`. The slot of a logged
insertion is not used. -/
def RecordOperation.perform (area : Area) : RecordOperation → Option (Area × Reply)
  | .initPage recordSize => some (initEmptyPage area recordSize, .done)
  | .insert data => RecordPageBytes.insertRecord area data
  | .delete slot => RecordPageBytes.deleteRecord area slot
  | .update slot data => updateRecord area slot data

/-- The entries of the log that are about the file. -/
inductive FileEntry where
  | header (entry : LogEntry)
  | record (lsn : Int) (page : Nat) (operation : RecordOperation)

/-- `RecordLogReplayer::replay`; none if it returns an error, or leaves the page. -/
def replayRecord (calls : Calls) (file : File) (lsn : Int) (page : Nat)
    (operation : RecordOperation) : Option File :=
  match initPage calls file.pool page with
  | .error _ => none
  | .ok _ =>
    if lsn ≤ file.lsns page then some file
    else
      match operation.perform (file.pages page) with
      | none | some (_, .error _) => none
      | some (area, _) =>
        some { file with
          pages := Function.update file.pages page area
          lsns := Function.update file.lsns page lsn }

def replayEntry (calls : Calls) (file : File) : FileEntry → Option File
  | .header entry =>
    (redo (file.pool.header, file.pool.hdrLsn) entry).toOption.map fun replayed =>
      { file with pool := { file.pool with header := replayed.1, hdrLsn := replayed.2 } }
  | .record lsn page operation => replayRecord calls file lsn page operation

def replayFile (calls : Calls) (file : File) (entries : List FileEntry) : Option File :=
  entries.foldlM (replayEntry calls) file

/-- The table is opened, and with it the set is filled, before the log is replayed. -/
def openAndReplay (calls : Calls) (file : File) (entries : List FileEntry) :
    Option RecordFileHandler :=
  (replayFile calls file entries).map fun replayed =>
    { openFile calls file with pool := replayed.pool, pages := replayed.pages }

inductive Action where
  | insert (calls : Calls) (data : List Byte)
  | delete (calls : Calls) (page : Nat) (slot : Int)

def step (size : Nat) (handler : RecordFileHandler) : Action → Option RecordFileHandler
  | .insert calls data =>
    if calls.order.toFinset = handler.freePages then
      (handler.insertRecord size calls data).map Prod.fst
    else none
  | .delete calls page slot => (handler.deleteRecord calls page slot).map Prod.fst

end CsuDbms.FreePageModel
