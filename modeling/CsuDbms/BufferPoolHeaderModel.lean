import Mathlib

/-!
# The header page of a paged file

Pure transcription of the allocation state that `DiskBufferPool` keeps in page 0:
choosing a page in `allocate_page`, clearing its bit in `dispose_page`, the test
of `check_page_num`, and the two redo functions of log replay. The bitmap is a
function on page numbers. The `buffer_pool_id` field never changes and stands in
the page keys instead.
-/

namespace CsuDbms.BufferPoolHeaderModel

inductive RC where
  | bufferpoolInvalidPageNum
  | bufferpoolNobuf
  | ioerrRead
  | lockedUnlock
  | internal
  | invalidArgument
  | unimplemented
  | recordNomem
  | recordNotExist
  | recordInvalidRid
  | recordDuplicateKey
  deriving DecidableEq, Repr

structure BPFileHeader where
  pageCount : Nat
  allocatedPages : Int
  bitmap : Nat → Bool

namespace BPFileHeader

/-- `BP_PAGE_DATA_SIZE` less the three integers of the header, in bits. -/
def maxPageNum : Nat := (8180 - 4 - 4 - 4) * 8

def create : BPFileHeader where
  pageCount := 1
  allocatedPages := 1
  bitmap := fun page => page = 0

def checkPageNum (header : BPFileHeader) (pageNum : Int) : Bool :=
  0 ≤ pageNum ∧ pageNum < header.pageCount ∧ header.bitmap pageNum.toNat = true

/-- The first clear bit, looked for only if the counters leave room for one. -/
def freePage (header : BPFileHeader) : Option Nat :=
  if header.allocatedPages < header.pageCount then
    (List.range header.pageCount).find? fun page => !header.bitmap page
  else none

def reuse (header : BPFileHeader) (page : Nat) : BPFileHeader :=
  { header with
      allocatedPages := header.allocatedPages + 1
      bitmap := Function.update header.bitmap page true }

def extend (header : BPFileHeader) : BPFileHeader where
  pageCount := header.pageCount + 1
  allocatedPages := header.allocatedPages + 1
  bitmap := Function.update header.bitmap header.pageCount true

def dispose (header : BPFileHeader) (page : Nat) : BPFileHeader :=
  { header with
      allocatedPages := header.allocatedPages - 1
      bitmap := Function.update header.bitmap page false }

/-- `redo_allocate_page`, on the header and the number of its page. Setting a bit
of an existing page leaves the number as it is. -/
def redoAllocatePage (maxPages : Nat) (header : BPFileHeader) (hdrLsn lsn : Int)
    (page : Nat) : Except RC (BPFileHeader × Int) :=
  if lsn ≤ hdrLsn then .ok (header, hdrLsn)
  else if page < header.pageCount then
    if header.bitmap page then .ok (header, hdrLsn) else .ok (header.reuse page, hdrLsn)
  else if header.pageCount < page then .error .internal
  else if maxPages ≤ header.pageCount then .error .internal
  else .ok (header.extend, lsn)

def redoDeallocatePage (header : BPFileHeader) (hdrLsn lsn : Int) (page : Nat) :
    Except RC (BPFileHeader × Int) :=
  if lsn ≤ hdrLsn then .ok (header, hdrLsn)
  else if header.pageCount ≤ page then .error .internal
  else if !header.bitmap page then .error .internal
  else .ok (header.dispose page, lsn)

@[simp] theorem checkPageNum_natCast (header : BPFileHeader) (page : Nat) :
    header.checkPageNum page = true ↔ page < header.pageCount ∧ header.bitmap page = true := by
  simp [checkPageNum]

theorem freePage_eq_some {header : BPFileHeader} {page : Nat}
    (free : header.freePage = some page) :
    page < header.pageCount ∧ header.bitmap page = false := by
  unfold freePage at free
  split at free
  · have member := List.mem_of_find?_eq_some free
    have clear := List.find?_some free
    exact ⟨List.mem_range.mp member, by simpa using clear⟩
  · cases free

end BPFileHeader

end CsuDbms.BufferPoolHeaderModel
