import CsuDbms.BufferPoolHeaderModel

/-!
# Record pages

Pure transcription of `RecordPageHandler` and its two subclasses: the page header
and the layout `init_empty_page` computes, the slot bitmap, and inserting,
deleting, updating and reading a record. A record is the contents of one slot; the
bytes behind the last slot are left out. The row format implements every function,
the column format only deletion.
-/

namespace CsuDbms.RecordPageModel

open BufferPoolHeaderModel List Option Function

inductive StorageFormat where
  | unknown
  | row
  | pax
  deriving DecidableEq, Repr

structure PageHeader where
  recordNum : Nat := 0
  columnNum : Nat := 0
  recordRealSize : Nat := 0
  recordSize : Nat := 0
  recordCapacity : Nat := 0
  colIdxOffset : Nat := 0
  dataOffset : Nat := 0
  deriving DecidableEq, Repr

structure RecordPage (Record : Type) where
  lsn : Int
  header : PageHeader
  columnIndex : List Nat
  bitmap : Nat → Bool
  slots : Nat → Record

def pageDataSize : Nat := 8180

/-- The seven integers of `PageHeader`. -/
def pageHeaderSize : Nat := 28

def align8 (size : Nat) : Nat := (size + 7) / 8 * 8

/-- The quotient by `record_size + 0.125`, in eighths. -/
def pageRecordCapacity (pageSize recordSize fixedSize : Nat) : Nat :=
  8 * (pageSize - pageHeaderSize - fixedSize - 1) / (8 * recordSize + 1)

def pageBitmapSize (recordCapacity : Nat) : Nat := (recordCapacity + 7) / 8

def fixRecordCapacity (dataOffset recordSize : Nat) : Nat → Nat
  | 0 => 0
  | capacity + 1 =>
    if pageDataSize < dataOffset + (capacity + 1) * recordSize then
      fixRecordCapacity dataOffset recordSize capacity
    else capacity + 1

def emptyHeader (recordSize columnNum : Nat) : PageHeader :=
  let slotSize := align8 recordSize
  let capacity := pageRecordCapacity pageDataSize slotSize (columnNum * 4)
  let colIdxOffset := align8 (pageHeaderSize + pageBitmapSize capacity)
  let dataOffset := colIdxOffset + columnNum * 4
  { recordNum := 0
    columnNum := columnNum
    recordRealSize := recordSize
    recordSize := slotSize
    recordCapacity := fixRecordCapacity dataOffset slotSize capacity
    colIdxOffset := colIdxOffset
    dataOffset := dataOffset }

/-- Running ends of the columns, one length per field. -/
def columnEnds (capacity start : Nat) : List Nat → List Nat
  | [] => []
  | length :: rest =>
    (length * capacity + start) :: columnEnds capacity (length * capacity + start) rest

namespace RecordPage

variable {Record : Type}

def clear [Inhabited Record] (lsn : Int) : RecordPage Record where
  lsn := lsn
  header := {}
  columnIndex := []
  bitmap := fun _ => false
  slots := fun _ => default

def setLsn (page : RecordPage Record) (lsn : Int) : RecordPage Record :=
  { page with lsn := lsn }

def isFull (page : RecordPage Record) : Bool :=
  page.header.recordCapacity ≤ page.header.recordNum

def isEmpty (page : RecordPage Record) : Bool := page.header.recordNum = 0

def record? (page : RecordPage Record) (slot : Nat) : Option Record :=
  if slot < page.header.recordCapacity ∧ page.bitmap slot = true then some (page.slots slot)
  else none

/-- Only the header and the bitmap are reset; old record bytes stay. -/
def initEmptyPage (page : RecordPage Record) (recordSize : Nat) (columnIndex : List Nat) :
    RecordPage Record :=
  { page with
      header := emptyHeader recordSize columnIndex.length
      columnIndex := columnIndex
      bitmap := fun _ => false }

def nextUnsettedBit (page : RecordPage Record) : Option Nat :=
  (List.range page.header.recordCapacity).find? fun slot => !page.bitmap slot

def addRecord (page : RecordPage Record) (slot : Nat) (record : Record) : RecordPage Record :=
  { page with
      header := { page.header with recordNum := page.header.recordNum + 1 }
      bitmap := update page.bitmap slot true
      slots := update page.slots slot record }

def dropRecord (page : RecordPage Record) (slot : Nat) : RecordPage Record :=
  { page with
      header := { page.header with recordNum := page.header.recordNum - 1 }
      bitmap := update page.bitmap slot false }

/-- The record goes to the first free slot, whatever slot a log entry names. -/
def insertRecord (format : StorageFormat) (page : RecordPage Record) (record : Record) :
    Except RC (RecordPage Record × Nat) :=
  match format with
  | .row =>
    if page.header.recordNum = page.header.recordCapacity then .error .recordNomem
    else
      match page.nextUnsettedBit with
      | some slot => .ok (page.addRecord slot record, slot)
      | none => .error .internal
  | _ => .error .unimplemented

/-- The slot is not compared with the capacity. -/
def deleteRecord (page : RecordPage Record) (slot : Nat) : Except RC (RecordPage Record) :=
  if page.bitmap slot then .ok (page.dropRecord slot)
  else .error .recordNotExist

def updateRecord (format : StorageFormat) (page : RecordPage Record) (slot : Nat)
    (record : Record) : Except RC (RecordPage Record) :=
  match format with
  | .row =>
    if page.header.recordCapacity ≤ slot then .error .invalidArgument
    else if page.bitmap slot then
      .ok { page with slots := update page.slots slot record }
    else .error .recordNotExist
  | _ => .error .unimplemented

def getRecord (format : StorageFormat) (page : RecordPage Record) (slot : Nat) :
    Except RC Record :=
  match format with
  | .row =>
    if page.header.recordCapacity ≤ slot then .error .recordInvalidRid
    else if page.bitmap slot then .ok (page.slots slot)
    else .error .recordNotExist
  | _ => .error .unimplemented

end RecordPage

inductive Change (Record : Type) where
  | initPage (recordSize : Nat) (columnIndex : List Nat)
  | insert (slot : Nat) (record : Record)
  | delete (slot : Nat)
  | update (slot : Nat) (record : Record)

def Change.replay {Record : Type} (format : StorageFormat) (page : RecordPage Record) :
    Change Record → Except RC (RecordPage Record)
  | .initPage recordSize columnIndex => .ok (page.initEmptyPage recordSize columnIndex)
  | .insert _ record => (page.insertRecord format record).map Prod.fst
  | .delete slot => page.deleteRecord slot
  | .update slot record => page.updateRecord format slot record

namespace RecordPage

variable {Record : Type} {format : StorageFormat}

def occupied (page : RecordPage Record) : Finset Nat :=
  (Finset.range page.header.recordCapacity).filter fun slot => page.bitmap slot = true

structure Counted (page : RecordPage Record) : Prop where
  count : page.header.recordNum = page.occupied.card
  inside : ∀ slot, page.bitmap slot = true → slot < page.header.recordCapacity

variable {page : RecordPage Record} {slot : Nat}

theorem mem_occupied :
    slot ∈ page.occupied ↔ slot < page.header.recordCapacity ∧ page.bitmap slot = true := by
  simp [occupied]

theorem record?_eq_none :
    page.record? slot = none ↔ slot ∉ page.occupied := by
  simp [record?, mem_occupied]

theorem nextUnsettedBit_eq_some (found : page.nextUnsettedBit = some slot) :
    slot < page.header.recordCapacity ∧ page.bitmap slot = false := by
  have member := mem_of_find?_eq_some found
  have unset := find?_some found
  exact ⟨mem_range.mp member, by simpa using unset⟩

variable {next : RecordPage Record} {record : Record}

theorem insertRecord_eq_ok (inserted : page.insertRecord format record = .ok (next, slot)) :
    format = .row ∧ page.header.recordNum ≠ page.header.recordCapacity ∧
      page.nextUnsettedBit = some slot ∧ next = page.addRecord slot record := by
  cases format with
  | row =>
    simp only [insertRecord] at inserted
    split at inserted
    · cases inserted
    · rename_i room
      split at inserted
      · rename_i found search
        cases inserted
        exact ⟨rfl, room, search, rfl⟩
      · cases inserted
  | unknown => cases inserted
  | pax => cases inserted

theorem replay_insert_eq_ok {logged : Nat}
    (replayed : (Change.insert logged record).replay format page = .ok next) :
    ∃ slot, page.insertRecord format record = .ok (next, slot) := by
  cases inserted : page.insertRecord format record with
  | error rc => simp [Change.replay, inserted, Except.map] at replayed
  | ok result =>
    simp only [Change.replay, inserted, Except.map, Except.ok.injEq] at replayed
    exact ⟨result.2, by rw [← replayed]⟩

theorem deleteRecord_eq_ok (counted : page.Counted)
    (deleted : page.deleteRecord slot = .ok next) :
    slot ∈ page.occupied ∧ next = page.dropRecord slot := by
  unfold deleteRecord at deleted
  split at deleted
  · rename_i set
    cases deleted
    exact ⟨mem_occupied.mpr ⟨counted.inside slot set, set⟩, rfl⟩
  · cases deleted

theorem updateRecord_eq_ok (updated : page.updateRecord format slot record = .ok next) :
    format = .row ∧ slot ∈ page.occupied ∧
      next = { page with slots := update page.slots slot record } := by
  cases format with
  | row =>
    simp only [updateRecord] at updated
    split at updated
    · cases updated
    · rename_i inside
      split at updated
      · rename_i set
        cases updated
        exact ⟨rfl, mem_occupied.mpr ⟨not_le.mp inside, set⟩, rfl⟩
      · cases updated
  | unknown => cases updated
  | pax => cases updated

theorem occupied_addRecord (inside : slot < page.header.recordCapacity) :
    (page.addRecord slot record).occupied = insert slot page.occupied := by
  ext other
  by_cases same : other = slot
  · subst same
    simp [mem_occupied, addRecord, inside]
  · simp [mem_occupied, addRecord, same]

theorem occupied_dropRecord (page : RecordPage Record) (slot : Nat) :
    (page.dropRecord slot).occupied = page.occupied.erase slot := by
  ext other
  by_cases same : other = slot
  · subst same
    simp [mem_occupied, dropRecord]
  · simp [mem_occupied, dropRecord, same]

theorem counted_clear [Inhabited Record] (lsn : Int) :
    (clear lsn : RecordPage Record).Counted :=
  ⟨by simp [occupied, clear], by simp [clear]⟩

theorem Counted.replay {change : Change Record}
    (counted : page.Counted) (replayed : change.replay format page = .ok next) :
    next.Counted := by
  cases change with
  | initPage recordSize columnIndex =>
    cases replayed
    exact ⟨by simp [occupied, initEmptyPage, emptyHeader], by simp [initEmptyPage]⟩
  | insert _ record =>
    obtain ⟨slot, inserted⟩ := replay_insert_eq_ok replayed
    obtain ⟨_, _, found, rfl⟩ := insertRecord_eq_ok inserted
    obtain ⟨inside, unset⟩ := nextUnsettedBit_eq_some found
    have absent : slot ∉ page.occupied := by
      simp [mem_occupied, unset]
    refine ⟨?_, fun other set => ?_⟩
    · rw [occupied_addRecord inside, Finset.card_insert_of_notMem absent, ← counted.count]
      rfl
    · by_cases same : other = slot
      · exact same ▸ inside
      · exact counted.inside other (by simpa [addRecord, same] using set)
  | delete slot =>
    obtain ⟨held, rfl⟩ := deleteRecord_eq_ok counted replayed
    refine ⟨?_, fun other set => ?_⟩
    · rw [occupied_dropRecord, Finset.card_erase_of_mem held, ← counted.count]
      rfl
    · by_cases same : other = slot
      · simp [dropRecord, same] at set
      · exact counted.inside other (by simpa [dropRecord, same] using set)
  | update slot record =>
    obtain ⟨_, _, rfl⟩ := updateRecord_eq_ok replayed
    exact ⟨counted.count, counted.inside⟩

theorem Counted.no_record (counted : page.Counted)
    (empty : page.isEmpty = true) (slot : Nat) : page.record? slot = none := by
  have zero : page.occupied.card = 0 := counted.count ▸ of_decide_eq_true empty
  rw [record?_eq_none, Finset.card_eq_zero.mp zero]
  exact Finset.notMem_empty slot

/-- A page brought back by replay: the same records, and from the moment the page
was given its layout also the same header and number. -/
structure Agrees (live current : RecordPage Record) : Prop where
  lsn_le : current.lsn ≤ live.lsn
  records : ∀ slot, current.record? slot = live.record? slot
  layout : live.header ≠ {} → current.lsn = live.lsn ∧ current.header = live.header ∧
    current.columnIndex = live.columnIndex

theorem agrees_refl (page : RecordPage Record) : page.Agrees page :=
  ⟨le_rfl, fun _ => rfl, fun _ => ⟨rfl, rfl, rfl⟩⟩

variable {live current : RecordPage Record}

theorem Agrees.occupied_eq (agrees : live.Agrees current) : current.occupied = live.occupied := by
  ext slot
  have same := agrees.records slot
  rw [← not_iff_not, ← record?_eq_none, ← record?_eq_none, same]

theorem Agrees.slots_eq (agrees : live.Agrees current)
    (held : slot ∈ live.occupied) : current.slots slot = live.slots slot := by
  have same := agrees.records slot
  have kept := agrees.occupied_eq ▸ held
  rw [record?, record?, if_pos (mem_occupied.mp held), if_pos (mem_occupied.mp kept)] at same
  exact some.inj same

theorem agrees_of_eq {lsn : Int} (header : current.header = live.header)
    (columnIndex : current.columnIndex = live.columnIndex)
    (occupied : current.occupied = live.occupied)
    (slots : ∀ slot ∈ live.occupied, current.slots slot = live.slots slot) :
    (live.setLsn lsn).Agrees (current.setLsn lsn) := by
  refine ⟨le_rfl, fun slot => ?_, fun _ => ⟨rfl, header, columnIndex⟩⟩
  change current.record? slot = live.record? slot
  by_cases held : slot ∈ live.occupied
  · have kept := occupied ▸ held
    rw [record?, record?, if_pos (mem_occupied.mp held), if_pos (mem_occupied.mp kept),
      slots slot held]
  · rw [record?_eq_none.mpr held, record?_eq_none.mpr (occupied ▸ held)]

theorem header_ne_of_occupied (held : slot ∈ live.occupied) : live.header ≠ {} := by
  intro unset
  have inside := (mem_occupied.mp held).1
  simp [unset] at inside

theorem Agrees.nextUnsettedBit_eq (agrees : live.Agrees current)
    (header : current.header = live.header) :
    current.nextUnsettedBit = live.nextUnsettedBit := by
  unfold nextUnsettedBit
  rw [header]
  refine find?_congr fun slot member => ?_
  have inside := mem_range.mp member
  have same : slot ∈ current.occupied ↔ slot ∈ live.occupied := by rw [agrees.occupied_eq]
  rw [mem_occupied, mem_occupied, header] at same
  have bit : current.bitmap slot = live.bitmap slot := Bool.eq_iff_iff.mpr
    ⟨fun set => (same.mp ⟨inside, set⟩).2, fun set => (same.mpr ⟨inside, set⟩).2⟩
  rw [bit]

theorem Agrees.replay {change : Change Record} {lsn : Int} (agrees : live.Agrees current)
    (counted : live.Counted) (changed : change.replay format live = .ok next) :
    ∃ redone, change.replay format current = .ok redone ∧
      (next.setLsn lsn).Agrees (redone.setLsn lsn) := by
  cases change with
  | initPage recordSize columnIndex =>
    cases changed
    refine ⟨_, rfl, agrees_of_eq rfl rfl rfl fun slot held => ?_⟩
    simp [mem_occupied, initEmptyPage] at held
  | insert logged record =>
    obtain ⟨slot, inserted⟩ := replay_insert_eq_ok changed
    obtain ⟨rfl, room, found, rfl⟩ := insertRecord_eq_ok inserted
    have laid : live.header ≠ {} := fun unset => room (by simp [unset])
    obtain ⟨_, header, columnIndex⟩ := agrees.layout laid
    have inside := (nextUnsettedBit_eq_some found).1
    refine ⟨current.addRecord slot record, ?_, agrees_of_eq ?_ columnIndex ?_ ?_⟩
    · rw [Change.replay, insertRecord, header, if_neg room,
        agrees.nextUnsettedBit_eq header, found]
      rfl
    · simp [addRecord, header]
    · rw [occupied_addRecord inside, occupied_addRecord (header ▸ inside), agrees.occupied_eq]
    · intro other held
      rw [occupied_addRecord inside, Finset.mem_insert] at held
      by_cases same : other = slot
      · simp [addRecord, same]
      · simpa [addRecord, same] using agrees.slots_eq (held.resolve_left same)
  | delete slot =>
    obtain ⟨held, rfl⟩ := deleteRecord_eq_ok counted changed
    obtain ⟨_, header, columnIndex⟩ := agrees.layout (header_ne_of_occupied held)
    refine ⟨current.dropRecord slot, ?_, agrees_of_eq ?_ columnIndex ?_ ?_⟩
    · exact if_pos (mem_occupied.mp (agrees.occupied_eq ▸ held)).2
    · simp [dropRecord, header]
    · rw [occupied_dropRecord, occupied_dropRecord, agrees.occupied_eq]
    · intro other kept
      rw [occupied_dropRecord] at kept
      exact agrees.slots_eq (Finset.mem_of_mem_erase kept)
  | update slot record =>
    obtain ⟨rfl, held, rfl⟩ := updateRecord_eq_ok changed
    obtain ⟨_, header, columnIndex⟩ := agrees.layout (header_ne_of_occupied held)
    obtain ⟨inside, set⟩ := mem_occupied.mp (agrees.occupied_eq ▸ held)
    refine ⟨{ current with slots := update current.slots slot record }, ?_,
      agrees_of_eq header columnIndex agrees.occupied_eq ?_⟩
    · rw [Change.replay, updateRecord, if_neg (not_le.mpr inside), if_pos set]
    · intro other kept
      by_cases same : other = slot
      · simp [same]
      · simpa [same] using agrees.slots_eq kept

end RecordPage

end CsuDbms.RecordPageModel
