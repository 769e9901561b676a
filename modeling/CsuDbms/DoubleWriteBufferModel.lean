import Mathlib

/-!
# The double-write buffer

Pure transcription of `DiskDoubleWriteBuffer`. A call changes the map in memory
and issues file writes: a slot of the double-write file, its header, or a page
of a data file. The writes are listed in source order, so that a crash can stop
a call between two of them or inside one. Page contents are an arbitrary type.
Iteration over the hash map has no fixed order; where it matters the order is an
argument. The header is four bytes and is taken to be written whole.
-/

namespace CsuDbms.DoubleWriteBufferModel

open List

structure DoubleWritePageKey where
  bufferPoolId : Int
  pageNum : Int
  deriving DecidableEq, Repr

variable {Page : Type}

structure DoubleWritePage (Page : Type) where
  key : DoubleWritePageKey
  pageIndex : Nat
  valid : Bool
  page : Page
  deriving DecidableEq, Repr

/-- A stored value whose checksum matches, or what a torn write left. -/
inductive Stored (Value : Type) where
  | torn
  | whole (value : Value)
  deriving DecidableEq, Repr

structure Disk (Page : Type) where
  pageCnt : Nat
  slots : Nat → Stored (DoubleWritePage Page)
  data : DoubleWritePageKey → Stored Page

/-- `dblwr_pages_` and `header_.page_cnt`. -/
structure Buffer (Page : Type) where
  pages : List (DoubleWritePage Page)
  pageCnt : Nat

inductive FileWrite (Page : Type) where
  | slot (page : DoubleWritePage Page)
  | header (pageCnt : Nat)
  | data (key : DoubleWritePageKey) (page : Page)
  deriving DecidableEq, Repr

def FileWrite.apply (disk : Disk Page) : FileWrite Page → Disk Page
  | .slot page => { disk with slots := Function.update disk.slots page.pageIndex (.whole page) }
  | .header pageCnt => { disk with pageCnt := pageCnt }
  | .data key page => { disk with data := Function.update disk.data key (.whole page) }

def FileWrite.tear (disk : Disk Page) : FileWrite Page → Disk Page
  | .slot page => { disk with slots := Function.update disk.slots page.pageIndex .torn }
  | .header _ => disk
  | .data key _ => { disk with data := Function.update disk.data key .torn }

def applyWrites (disk : Disk Page) (writes : List (FileWrite Page)) : Disk Page :=
  writes.foldl FileWrite.apply disk

/-- `valid = false` followed by `write_page_internal`. -/
def DoubleWritePage.invalidate (page : DoubleWritePage Page) : DoubleWritePage Page :=
  { page with valid := false }

/-- One round of the loop in `flush_page`; `write_page` skips an invalid page. -/
def DoubleWritePage.writeBack (page : DoubleWritePage Page) : List (FileWrite Page) :=
  (if page.valid then [.data page.key page.page] else []) ++ [.slot page.invalidate]

def flushPage (order : List (DoubleWritePage Page)) : Buffer Page × List (FileWrite Page) :=
  ({ pages := [], pageCnt := 0 }, order.flatMap DoubleWritePage.writeBack)

def Buffer.find (buffer : Buffer Page) (key : DoubleWritePageKey) :
    Option (DoubleWritePage Page) :=
  buffer.pages.find? fun page => page.key = key

/-- `add_page`. When the buffer is full it ends with a flush in the order
`order`, which lists the map including the new page. -/
def Buffer.addPage (buffer : Buffer Page) (maxPages : Nat) (key : DoubleWritePageKey)
    (image : Page) (order : List (DoubleWritePage Page)) :
    Buffer Page × List (FileWrite Page) :=
  match buffer.find key with
  | some page =>
    let updated := { page with page := image }
    ({ buffer with
        pages := buffer.pages.map fun other => if other.key = key then updated else other },
      [.slot updated])
  | none =>
    let pageIndex := buffer.pages.length
    let added : DoubleWritePage Page := ⟨key, pageIndex, true, image⟩
    let pages := buffer.pages ++ [added]
    let grows := buffer.pageCnt < pageIndex + 1
    let writes := .slot added :: if grows then [.header (pageIndex + 1)] else []
    if maxPages ≤ pages.length then
      ((flushPage order).1, writes ++ (flushPage order).2)
    else
      ({ pages := pages, pageCnt := if grows then pageIndex + 1 else buffer.pageCnt }, writes)

/-- `clear_pages`: the pages of one data file, by page number. The source does
not look at `valid` here. -/
def Buffer.clearPages (buffer : Buffer Page) (bufferPoolId : Int) :
    Buffer Page × List (FileWrite Page) :=
  let specPages := (buffer.pages.filter fun page => page.key.bufferPoolId = bufferPoolId)
    |>.insertionSort fun a b => a.key.pageNum ≤ b.key.pageNum
  ({ buffer with
      pages := buffer.pages.filter fun page => page.key.bufferPoolId ≠ bufferPoolId },
    specPages.flatMap fun page => [.data page.key page.page, .slot page.invalidate])

/-- `unordered_map::insert`, which keeps the entry already there. -/
def insertPage (pages : List (DoubleWritePage Page)) (page : DoubleWritePage Page) :
    List (DoubleWritePage Page) :=
  if pages.any fun other => other.key = page.key then pages else pages ++ [page]

/-- `load_pages`: the slots below the header count whose checksum matches. -/
def loadPages (disk : Disk Page) : Buffer Page where
  pages := (List.range disk.pageCnt).foldl
    (fun pages index =>
      match disk.slots index with
      | .whole page => insertPage pages page
      | .torn => pages) []
  pageCnt := disk.pageCnt

def recover (disk : Disk Page) : Disk Page :=
  applyWrites disk (flushPage (loadPages disk).pages).2

theorem applyWrites_append (disk : Disk Page) (first second : List (FileWrite Page)) :
    applyWrites disk (first ++ second) = applyWrites (applyWrites disk first) second :=
  foldl_append

def Buffer.newPageWrites (buffer : Buffer Page) (added : DoubleWritePage Page) :
    List (FileWrite Page) :=
  .slot added :: if buffer.pageCnt < added.pageIndex + 1 then [.header (added.pageIndex + 1)]
    else []

variable {buffer : Buffer Page} {key : DoubleWritePageKey}

theorem find_none (absent : buffer.find key = none) : ∀ page ∈ buffer.pages, page.key ≠ key := by
  intro page member same
  simpa [same] using find?_eq_none.mp absent page member

theorem find_some {page : DoubleWritePage Page}
    (found : buffer.find key = some page) : page ∈ buffer.pages ∧ page.key = key :=
  ⟨mem_of_find?_eq_some found, by simpa using find?_some found⟩

def replacePage (pages : List (DoubleWritePage Page)) (updated : DoubleWritePage Page) :
    List (DoubleWritePage Page) :=
  pages.map fun other => if other.key = updated.key then updated else other

theorem addPage_buffered
    {page : DoubleWritePage Page} (found : buffer.find key = some page) (maxPages : Nat)
    (image : Page) (order : List (DoubleWritePage Page)) :
    buffer.addPage maxPages key image order =
      ({ buffer with pages := replacePage buffer.pages { page with page := image } },
        [.slot { page with page := image }]) := by
  simp [Buffer.addPage, found, replacePage, (find_some found).2]

theorem addPage_new (absent : buffer.find key = none) (maxPages : Nat) (image : Page)
    (order : List (DoubleWritePage Page)) :
    let added : DoubleWritePage Page := ⟨key, buffer.pages.length, true, image⟩
    buffer.addPage maxPages key image order =
      if maxPages ≤ (buffer.pages ++ [added]).length then
        ((flushPage order).1, buffer.newPageWrites added ++ (flushPage order).2)
      else
        ({ pages := buffer.pages ++ [added],
           pageCnt := if buffer.pageCnt < added.pageIndex + 1 then added.pageIndex + 1
             else buffer.pageCnt },
          buffer.newPageWrites added) := by
  simp [Buffer.addPage, absent, Buffer.newPageWrites]

def Buffer.specPages (buffer : Buffer Page) (bufferPoolId : Int) : List (DoubleWritePage Page) :=
  (buffer.pages.filter fun page => page.key.bufferPoolId = bufferPoolId)
    |>.insertionSort fun a b => a.key.pageNum ≤ b.key.pageNum

theorem mem_specPages (buffer : Buffer Page) (bufferPoolId : Int) (page : DoubleWritePage Page) :
    page ∈ buffer.specPages bufferPoolId ↔
      page ∈ buffer.pages ∧ page.key.bufferPoolId = bufferPoolId := by
  simp [Buffer.specPages]

def loadedBelow (disk : Disk Page) (count : Nat) : List (DoubleWritePage Page) :=
  (List.range count).foldl
    (fun pages index =>
      match disk.slots index with
      | .whole page => insertPage pages page
      | .torn => pages) []

theorem loadedBelow_succ (disk : Disk Page) (count : Nat) :
    loadedBelow disk (count + 1) =
      match disk.slots count with
      | .whole page => insertPage (loadedBelow disk count) page
      | .torn => loadedBelow disk count := by
  simp [loadedBelow, range_succ]

theorem mem_insertPage (pages : List (DoubleWritePage Page)) (page other : DoubleWritePage Page) :
    other ∈ insertPage pages page ↔
      other ∈ pages ∨ other = page ∧ ∀ present ∈ pages, present.key ≠ page.key := by
  unfold insertPage
  split
  · rename_i present
    simp only [any_eq_true, decide_eq_true_eq] at present
    obtain ⟨found, member, same⟩ := present
    constructor
    · exact .inl
    · rintro (inside | ⟨-, absent⟩)
      · exact inside
      · exact absurd same (absent found member)
  · rename_i absent
    simp only [any_eq_true, decide_eq_true_eq, not_exists, not_and] at absent
    simp only [mem_append, mem_singleton]
    exact or_congr_right ⟨fun same => ⟨same, absent⟩, And.left⟩

theorem insertPage_keys_nodup {pages : List (DoubleWritePage Page)}
    (nodup : (pages.map DoubleWritePage.key).Nodup) (page : DoubleWritePage Page) :
    ((insertPage pages page).map DoubleWritePage.key).Nodup := by
  unfold insertPage
  split
  · exact nodup
  · rename_i absent
    simp only [any_eq_true, decide_eq_true_eq, not_exists, not_and] at absent
    rw [map_append, map_singleton]
    refine nodup_append.mpr ⟨nodup, nodup_singleton _, ?_⟩
    intro key member other single
    obtain ⟨present, inside, rfl⟩ := mem_map.mp member
    rw [mem_singleton.mp single]
    exact absent present inside

theorem loadedBelow_keys_nodup (disk : Disk Page) (count : Nat) :
    ((loadedBelow disk count).map DoubleWritePage.key).Nodup := by
  induction count with
  | zero => exact nodup_nil
  | succ count ih =>
    rw [loadedBelow_succ]
    split
    · exact insertPage_keys_nodup ih _
    · exact ih

def FirstSlot (disk : Disk Page) (count : Nat) (page : DoubleWritePage Page) : Prop :=
  ∃ index < count, disk.slots index = .whole page ∧
    ∀ lower < index, ∀ other, disk.slots lower = .whole other → other.key ≠ page.key

theorem mem_loadedBelow_key {disk : Disk Page} {count : Nat}
    (absent : ∀ page ∈ loadedBelow disk count, page.key ≠ key) :
    ∀ index < count, ∀ page, disk.slots index = .whole page → page.key ≠ key := by
  induction count with
  | zero => simp
  | succ count ih =>
    rw [loadedBelow_succ] at absent
    intro index bound page slot
    have older : ∀ page ∈ loadedBelow disk count, page.key ≠ key := by
      intro page member
      apply absent
      split
      · exact (mem_insertPage _ _ _).mpr (.inl member)
      · exact member
    rcases Nat.lt_succ_iff_lt_or_eq.mp bound with lower | rfl
    · exact ih older index lower page slot
    · intro same
      rw [slot] at absent
      refine absent page ((mem_insertPage _ _ _).mpr (.inr ⟨rfl, ?_⟩)) same
      rw [same]
      exact older

theorem mem_loadedBelow (disk : Disk Page) (count : Nat) (page : DoubleWritePage Page) :
    page ∈ loadedBelow disk count ↔ FirstSlot disk count page := by
  induction count generalizing page with
  | zero => simp [loadedBelow, FirstSlot]
  | succ count ih =>
    rw [loadedBelow_succ]
    have older : FirstSlot disk count page → FirstSlot disk (count + 1) page :=
      fun ⟨index, bound, found⟩ => ⟨index, Nat.lt_succ_of_lt bound, found⟩
    constructor
    · intro member
      split at member
      · rename_i last slot
        rcases (mem_insertPage _ _ _).mp member with inside | ⟨rfl, absent⟩
        · exact older ((ih page).mp inside)
        · exact ⟨count, Nat.lt_succ_self count, slot, mem_loadedBelow_key absent⟩
      · exact older ((ih page).mp member)
    · rintro ⟨index, bound, slot, first⟩
      rcases Nat.lt_succ_iff_lt_or_eq.mp bound with lower | rfl
      · have inside := (ih page).mpr ⟨index, lower, slot, first⟩
        split
        · exact (mem_insertPage _ _ _).mpr (.inl inside)
        · exact inside
      · rw [slot]
        refine (mem_insertPage _ _ _).mpr (.inr ⟨rfl, ?_⟩)
        intro present member
        obtain ⟨lower, below, found, -⟩ := (ih present).mp member
        exact first lower below present found

theorem mem_loadPages (disk : Disk Page) (page : DoubleWritePage Page) :
    page ∈ (loadPages disk).pages ↔ FirstSlot disk disk.pageCnt page :=
  mem_loadedBelow disk disk.pageCnt page

end CsuDbms.DoubleWriteBufferModel
