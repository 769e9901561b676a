import CsuDbms.RecordPageModel
import CsuDbms.RedoLog
import CsuDbms.TransitionSystem

/-!
# Record files

Pure transcription of `RecordFileHandler`: inserting into a page with room or into
a newly allocated one, deleting with disposal of the page that becomes empty, and
updating in place. Every log entry is kept with the state of the file right after
it. The replay of the buffer pool's and the record manager's entries stands next
to it. The buffer pool itself is transparent here: a page is read as it was last
written.
-/

namespace CsuDbms.RecordFileModel

open BufferPoolHeaderModel
open RecordPageModel
open RedoLog

structure RecordFile (Record : Type) where
  header : BPFileHeader
  headerLsn : Int
  pages : Nat → RecordPage Record

inductive Entry (Record : Type) where
  | allocatePage (page : Nat)
  | deallocatePage (page : Nat)
  | record (format : StorageFormat) (page : Nat) (change : Change Record)

def Entry.recordPage? {Record : Type} : Entry Record → Option Nat
  | .record _ page _ => some page
  | _ => none

namespace RecordFile

variable {Record : Type}

def create [Inhabited Record] : RecordFile Record where
  header := .create
  headerLsn := 0
  pages := fun _ => .clear 0

def setPage (file : RecordFile Record) (pageNum : Nat) (page : RecordPage Record) :
    RecordFile Record :=
  { file with pages := Function.update file.pages pageNum page }

/-- A page that is used again is cleared and stamped with the entry's number. -/
def reusePage [Inhabited Record] (lsn : Int) (page : Nat) (file : RecordFile Record) :
    RecordFile Record where
  header := file.header.reuse page
  headerLsn := lsn
  pages := Function.update file.pages page (.clear lsn)

/-- The page behind the last one starts as zero bytes without a number. -/
def extendPages [Inhabited Record] (lsn : Int) (file : RecordFile Record) :
    RecordFile Record where
  header := file.header.extend
  headerLsn := lsn
  pages := Function.update file.pages file.header.pageCount (.clear 0)

def allocatePage [Inhabited Record] (maxPages : Nat) (lsn : Int) (file : RecordFile Record) :
    Except RC (RecordFile Record × Nat) :=
  match file.header.freePage with
  | some page => .ok (file.reusePage lsn page, page)
  | none =>
    if maxPages ≤ file.header.pageCount then .error .bufferpoolNobuf
    else .ok (file.extendPages lsn, file.header.pageCount)

def disposePage (lsn : Int) (page : Nat) (file : RecordFile Record) : RecordFile Record :=
  { file with header := file.header.dispose page, headerLsn := lsn }

/-- `BufferPoolLogReplayer::replay` and `RecordLogReplayer::replay`. The page is fetched, and its
number in the header checked, before the numbers are compared. The data file ends behind
`fileLength` pages. Redoing an allocation does not extend it, and only pages that were read are
written. -/
def replayEntry (maxPages fileLength : Nat) (file : RecordFile Record) (lsn : Int) :
    Entry Record → Except RC (RecordFile Record)
  | .allocatePage page =>
    (file.header.redoAllocatePage maxPages file.headerLsn lsn page).map fun redone =>
      { file with header := redone.1, headerLsn := redone.2 }
  | .deallocatePage page =>
    (file.header.redoDeallocatePage file.headerLsn lsn page).map fun redone =>
      { file with header := redone.1, headerLsn := redone.2 }
  | .record format page change =>
    if file.header.checkPageNum page then
      if fileLength ≤ page then .error .ioerrRead
      else if lsn ≤ (file.pages page).lsn then .ok file
      else (change.replay format (file.pages page)).map fun redone =>
        file.setPage page (redone.setLsn lsn)
    else .error .bufferpoolInvalidPageNum

def replay (maxPages fileLength : Nat) (file : RecordFile Record)
    (entries : List (Int × Entry Record)) : Except RC (RecordFile Record) :=
  entries.foldlM (fun file entry => file.replayEntry maxPages fileLength entry.1 entry.2) file

end RecordFile

structure RID where
  pageNum : Nat
  slotNum : Nat
  deriving DecidableEq, Repr

structure Table where
  maxPages : Nat
  format : StorageFormat
  recordSize : Nat
  fieldLengths : List Nat

def Table.columnIndex (table : Table) : List Nat :=
  if table.format = .pax then
    columnEnds (emptyHeader table.recordSize table.fieldLengths.length).recordCapacity 0
      table.fieldLengths
  else []

/-- The slots of a page of the table. -/
def Table.capacity (table : Table) : Nat :=
  (emptyHeader table.recordSize table.columnIndex.length).recordCapacity

structure RecordFileHandler (Record : Type) where
  file : RecordFile Record
  freePages : Finset Nat
  log : List (Logged (Entry Record) (RecordFile Record))

namespace RecordFileHandler

variable {Record : Type}

def start [Inhabited Record] : RecordFileHandler Record := ⟨.create, ∅, []⟩

def write (handler : RecordFileHandler Record) (lsn : Int) (entry : Entry Record)
    (file : RecordFile Record) : RecordFileHandler Record :=
  { handler with file := file, log := handler.log ++ [⟨lsn, entry, file⟩] }

def changePage (table : Table) (handler : RecordFileHandler Record) (lsn : Int) (page : Nat)
    (change : Change Record) (next : RecordPage Record) : RecordFileHandler Record :=
  handler.write lsn (.record table.format page change)
    (handler.file.setPage page (next.setLsn lsn))

def findFreePage (file : RecordFile Record) :
    List Nat → Finset Nat → Except RC (Option Nat) × Finset Nat
  | [], freePages => (.ok none, freePages)
  | page :: rest, freePages =>
    if file.header.checkPageNum page then
      if (file.pages page).isFull then findFreePage file rest (freePages.erase page)
      else (.ok (some page), freePages)
    else (.error .bufferpoolInvalidPageNum, freePages)

def insertIntoPage (table : Table) (handler : RecordFileHandler Record) (lsn : Int) (page : Nat)
    (record : Record) : RecordFileHandler Record × Except RC RID :=
  match (handler.file.pages page).insertRecord table.format record with
  | .error rc => (handler, .error rc)
  | .ok (next, slot) =>
    (handler.changePage table lsn page (.insert slot record) next, .ok ⟨page, slot⟩)

/-- The branch of `insert_record` without a page that has room. -/
def insertIntoNewPage [Inhabited Record] (table : Table) (handler : RecordFileHandler Record)
    (lsn : Int) (record : Record) : RecordFileHandler Record × Except RC RID :=
  match handler.file.allocatePage table.maxPages (lsn + 1) with
  | .error rc => (handler, .error rc)
  | .ok (file, page) =>
    let allocated := handler.write (lsn + 1) (.allocatePage page) file
    let initialized := allocated.changePage table (lsn + 2) page
      (.initPage table.recordSize table.columnIndex)
      ((file.pages page).initEmptyPage table.recordSize table.columnIndex)
    insertIntoPage table
      { initialized with freePages := insert page initialized.freePages } (lsn + 3) page record

/-- `lsn` is the number of the last log entry before the call, and `order` the
order in which the set of pages with room is iterated. -/
def insertRecord [Inhabited Record] (table : Table) (handler : RecordFileHandler Record)
    (lsn : Int) (order : List Nat) (record : Record) :
    RecordFileHandler Record × Except RC RID :=
  match findFreePage handler.file order handler.freePages with
  | (.error rc, freePages) => ({ handler with freePages := freePages }, .error rc)
  | (.ok (some page), freePages) =>
    insertIntoPage table { handler with freePages := freePages } (lsn + 1) page record
  | (.ok none, freePages) =>
    insertIntoNewPage table { handler with freePages := freePages } lsn record

/-- The page of a deleted record: disposed of once it is empty, unless somebody
else still has it pinned, and offered for insertion otherwise. -/
def releasePage (handler : RecordFileHandler Record) (lsn : Int) (page : Nat) (pinned : Bool) :
    RecordFileHandler Record :=
  if (handler.file.pages page).isEmpty && !pinned then
    { handler with freePages := handler.freePages.erase page }.write lsn (.deallocatePage page)
      (handler.file.disposePage lsn page)
  else { handler with freePages := insert page handler.freePages }

def deleteRecord (table : Table) (handler : RecordFileHandler Record) (lsn : Int) (rid : RID)
    (pinned : Bool) : RecordFileHandler Record × Except RC Unit :=
  if handler.file.header.checkPageNum rid.pageNum then
    match (handler.file.pages rid.pageNum).deleteRecord rid.slotNum with
    | .error rc => (handler, .error rc)
    | .ok next =>
      let deleted := handler.changePage table (lsn + 1) rid.pageNum (.delete rid.slotNum) next
      (deleted.releasePage (lsn + 2) rid.pageNum pinned, .ok ())
  else (handler, .error .bufferpoolInvalidPageNum)

/-- `updater` gives the new record, or none if it changed nothing. -/
def visitRecord (table : Table) (handler : RecordFileHandler Record) (lsn : Int) (rid : RID)
    (updater : Record → Option Record) : RecordFileHandler Record × Except RC Unit :=
  if handler.file.header.checkPageNum rid.pageNum then
    match (handler.file.pages rid.pageNum).getRecord table.format rid.slotNum with
    | .error rc => (handler, .error rc)
    | .ok old =>
      match updater old with
      | none => (handler, .ok ())
      | some record =>
        match (handler.file.pages rid.pageNum).updateRecord table.format rid.slotNum
            record with
        | .error rc => (handler, .error rc)
        | .ok next =>
          (handler.changePage table (lsn + 1) rid.pageNum
            (.update rid.slotNum record) next, .ok ())
  else (handler, .error .bufferpoolInvalidPageNum)

end RecordFileHandler

inductive Action (Record : Type) where
  | insert (lsn : Int) (order : List Nat) (record : Record)
  | delete (lsn : Int) (rid : RID) (pinned : Bool)
  | update (lsn : Int) (rid : RID) (updater : Record → Option Record)

/-- A call starts at the log's current number. Page 0 is the header page and no record identifier
names it. A deletion names a slot of the table's pages: `delete_record` would take the bytes behind
the bitmap, which no field of a page here stands for, for further bits. -/
def step {Record : Type} [Inhabited Record] (table : Table)
    (handler : RecordFileHandler Record) : Action Record → Option (RecordFileHandler Record)
  | .insert lsn order record =>
    if lastLsn 0 handler.log ≤ lsn ∧ order.Nodup ∧ order.toFinset = handler.freePages then
      some (handler.insertRecord table lsn order record).1
    else none
  | .delete lsn rid pinned =>
    if lastLsn 0 handler.log ≤ lsn ∧ rid.pageNum ≠ 0 ∧ rid.slotNum < table.capacity then
      some (handler.deleteRecord table lsn rid pinned).1
    else none
  | .update lsn rid updater =>
    if lastLsn 0 handler.log ≤ lsn ∧ rid.pageNum ≠ 0 then
      some (handler.visitRecord table lsn rid updater).1
    else none

end CsuDbms.RecordFileModel
