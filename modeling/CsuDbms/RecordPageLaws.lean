import CsuDbms.RecordPageBytes
import CsuDbms.TransitionSystem

/-!
# The laws of a record page

The area is the record slots, a bitmap that tells which of them are used, and a header
that counts these. What was stored is kept beside the area, slot by slot, from the
answers alone; every answer is then compared with it.
-/

namespace CsuDbms.RecordPageBytes

open LittleEndian RecordPageModel TransitionSystem List Option Function Area

variable {size : Nat}

section Layout

theorem fixRecordCapacity_le (dataOffset recordSize capacity : Nat) :
    fixRecordCapacity dataOffset recordSize capacity ≤ capacity := by
  induction capacity with
  | zero => exact Nat.le_refl 0
  | succ capacity ih =>
    rw [fixRecordCapacity]
    split_ifs <;> omega

theorem fixRecordCapacity_fits (dataOffset recordSize capacity : Nat)
    (some : 0 < fixRecordCapacity dataOffset recordSize capacity) :
    dataOffset + fixRecordCapacity dataOffset recordSize capacity * recordSize ≤ pageDataSize := by
  induction capacity with
  | zero => exact absurd some (by simp [fixRecordCapacity])
  | succ capacity ih =>
    rw [fixRecordCapacity] at some ⊢
    split_ifs at some ⊢ with large
    · exact ih some
    · exact Nat.not_lt.mp large

theorem le_fixRecordCapacity {dataOffset recordSize capacity count : Nat} (bound : count ≤ capacity)
    (fits : dataOffset + count * recordSize ≤ pageDataSize) :
    count ≤ fixRecordCapacity dataOffset recordSize capacity := by
  induction capacity with
  | zero => omega
  | succ capacity ih =>
    rw [fixRecordCapacity]
    split_ifs with large
    · rcases Nat.lt_or_ge capacity count with last | before
      · obtain rfl : count = capacity + 1 := by omega
        omega
      · exact ih before
    · exact bound

def capacityOf (size : Nat) : Nat := (emptyHeader size 0).recordCapacity

def slotSizeOf (size : Nat) : Nat := (emptyHeader size 0).recordSize

def dataOffsetOf (size : Nat) : Nat := (emptyHeader size 0).dataOffset

def maxRecordSize : Nat := 8144

theorem slotSize_bounds (positive : 0 < size) (small : size ≤ maxRecordSize) :
    size ≤ slotSizeOf size ∧ 8 ≤ slotSizeOf size ∧ slotSizeOf size ≤ 8144 := by
  simp only [slotSizeOf, emptyHeader, align8, maxRecordSize] at *
  omega

theorem first_capacity {slotSize : Nat} (least : 8 ≤ slotSize) (most : slotSize ≤ 8144) :
    1 ≤ pageRecordCapacity pageDataSize slotSize 0 ∧
      pageRecordCapacity pageDataSize slotSize 0 * (8 * slotSize + 1) ≤ 65208 := by
  simp only [pageRecordCapacity, pageDataSize, pageHeaderSize]
  refine ⟨?_, Nat.div_mul_le_self _ _⟩
  rw [Nat.le_div_iff_mul_le (by omega)]
  omega

theorem layout (positive : 0 < size) (small : size ≤ maxRecordSize) :
    1 ≤ capacityOf size ∧ capacityOf size ≤ 1003 ∧
      pageHeaderSize + pageBitmapSize (capacityOf size) ≤ dataOffsetOf size ∧
      dataOffsetOf size + capacityOf size * slotSizeOf size ≤ pageDataSize := by
  obtain ⟨_, least, most⟩ := slotSize_bounds positive small
  obtain ⟨some, space⟩ := first_capacity least most
  have slot : slotSizeOf size = align8 size := rfl
  have corrected : capacityOf size = fixRecordCapacity (dataOffsetOf size) (align8 size)
      (pageRecordCapacity pageDataSize (align8 size) 0) := by
    simp [capacityOf, dataOffsetOf, emptyHeader]
  have offset : dataOffsetOf size =
      align8 (pageHeaderSize + pageBitmapSize (pageRecordCapacity pageDataSize (align8 size) 0)) := by
    simp [dataOffsetOf, emptyHeader]
  rw [slot] at least most some space
  generalize pageRecordCapacity pageDataSize (align8 size) 0 = first at *
  have few : first ≤ 1003 := by
    have scaled : first * 65 ≤ first * (8 * align8 size + 1) := Nat.mul_le_mul_left _ (by omega)
    omega
  have close : dataOffsetOf size ≤ 168 ∧ pageHeaderSize + pageBitmapSize first ≤ dataOffsetOf size := by
    rw [offset]
    simp only [align8, pageHeaderSize, pageBitmapSize]
    omega
  have one : dataOffsetOf size + 1 * align8 size ≤ pageDataSize := by
    rcases Nat.lt_or_ge first 2 with single | several
    · obtain rfl : first = 1 := by omega
      have start : dataOffsetOf size = 32 := offset
      simp only [pageDataSize]
      omega
    · have scaled : 2 * (8 * align8 size + 1) ≤ first * (8 * align8 size + 1) :=
        Nat.mul_le_mul_right _ several
      simp only [pageDataSize]
      omega
  have fixed := le_fixRecordCapacity some one
  have below := fixRecordCapacity_le (dataOffsetOf size) (align8 size) first
  rw [slot, corrected]
  refine ⟨fixed, by omega, ?_, fixRecordCapacity_fits _ _ _ fixed⟩
  simp only [pageHeaderSize, pageBitmapSize] at close ⊢
  omega

end Layout

abbrev Stored := Nat → Option (List Byte)

def slotStart (size slot : Nat) : Nat := dataOffsetOf size + slot * slotSizeOf size

theorem slotStart_cast (size slot : Nat) :
    (slotStart size slot : Int) = dataOffsetOf size + slotSizeOf size * slot := by
  rw [slotStart]
  push_cast
  rw [Int.mul_comm]

def bitAt (area : Area) (slot : Nat) : Bool := testBit (area (pageHeaderSize + slot / 8)) (slot % 8)

def used (size : Nat) (stored : Stored) : Finset Nat :=
  (Finset.range (capacityOf size)).filter fun slot => (stored slot).isSome = true

structure Represents (size : Nat) (area : Area) (stored : Stored) : Prop where
  recordNum : area.recordNum = (used size stored).card
  realSize : area.recordRealSize = size
  slotSize : area.recordSize = slotSizeOf size
  capacity : area.recordCapacity = capacityOf size
  dataOffset : area.dataOffset = dataOffsetOf size
  bits : ∀ slot < capacityOf size, bitAt area slot = (stored slot).isSome
  within : ∀ slot, capacityOf size ≤ slot → stored slot = none
  records : ∀ slot data, stored slot = some data →
    data.length = size ∧ area.read (slotStart size slot) size = data

section Places

variable {slot : Nat} (positive : 0 < size) (small : size ≤ maxRecordSize)

include positive small

theorem bit_byte (inside : slot < capacityOf size) :
    pageHeaderSize + slot / 8 < dataOffsetOf size ∧ dataOffsetOf size ≤ pageDataSize := by
  obtain ⟨_, _, bitmap, slots⟩ := layout positive small
  simp only [pageBitmapSize, pageHeaderSize] at *
  omega

theorem slot_before {other : Nat} (before : slot < other) :
    slotStart size slot + size ≤ slotStart size other := by
  have real := (slotSize_bounds positive small).1
  have upTo : (slot + 1) * slotSizeOf size ≤ other * slotSizeOf size :=
    Nat.mul_le_mul_right _ before
  rw [Nat.succ_mul] at upTo
  simp only [slotStart]
  omega

theorem slot_inside (inside : slot < capacityOf size) :
    dataOffsetOf size ≤ slotStart size slot ∧ slotStart size slot + size ≤ pageDataSize :=
  ⟨Nat.le_add_right _ _,
    (slot_before positive small inside).trans (layout positive small).2.2.2⟩

theorem slots_apart {other : Nat} (apart : slot ≠ other) :
    slotStart size slot + size ≤ slotStart size other ∨
      slotStart size other + size ≤ slotStart size slot :=
  (Nat.lt_or_gt_of_ne apart).imp (slot_before positive small) (slot_before positive small)

theorem bitPlace_natCast (inside : slot < capacityOf size) :
    bitPlace (slot : Int) = some (pageHeaderSize + slot / 8, slot % 8) := by
  have bound := bit_byte positive small inside
  have quotient : (slot : Int).tdiv 8 = ((slot / 8 : Nat) : Int) := rfl
  have remainder : (slot : Int).tmod 8 = ((slot % 8 : Nat) : Int) := rfl
  rw [bitPlace, quotient, remainder]
  rw [if_pos (by omega)]
  simp
  omega

end Places

section Scan

theorem skip_or_find (byte : Byte) :
    (if byte ≠ 255 then findFirstZero byte 0 else none) = findFirstZero byte 0 := by
  by_cases ones : byte = 255
  · subst ones
    rfl
  · rw [if_pos ones]

theorem scan_eq (area : Area) (count : Nat) :
    ((range count).findSome? fun iter =>
      (findFirstZero (area (pageHeaderSize + iter)) 0).map fun bit => iter * 8 + bit) =
      (range (count * 8)).find? fun index => !bitAt area index := by
  induction count with
  | zero => rfl
  | succ count ih =>
    have block : (range 8).find? (fun bit => !bitAt area (count * 8 + bit)) =
        findFirstZero (area (pageHeaderSize + count)) 0 := by
      refine find?_congr fun bit inByte => ?_
      have quotient : (count * 8 + bit) / 8 = count := by have := mem_range.mp inByte; omega
      have remainder : (count * 8 + bit) % 8 = bit := by have := mem_range.mp inByte; omega
      rw [bitAt, quotient, remainder]
    rw [range_succ, findSome?_append, ih, findSome?_singleton, ← block, Nat.succ_mul, range_add,
      find?_append, find?_map]
    rfl

theorem nextUnsettedBit_spec (area : Area) (size : Nat) :
    match nextUnsettedBit area size 0 with
    | some index => index < size ∧ bitAt area index = false
    | none => ∀ index < size, bitAt area index = true := by
  have loop : nextUnsettedBit area size 0 =
      ((range (pageBitmapSize size)).findSome? fun iter =>
        (findFirstZero (area (pageHeaderSize + iter)) 0).map fun bit => iter * 8 + bit).filter
        fun index => decide (index < size) := by
    have step : ∀ iter, (if area (pageHeaderSize + iter) ≠ 255 then
        (findFirstZero (area (pageHeaderSize + iter)) 0).map fun bit => iter * 8 + bit else none) =
        (findFirstZero (area (pageHeaderSize + iter)) 0).map fun bit => iter * 8 + bit := by
      intro iter
      rw [← skip_or_find (area (pageHeaderSize + iter))]
      split_ifs <;> rfl
    rw [nextUnsettedBit, range_eq_range']
    simp only [Nat.zero_div, Nat.sub_zero, Nat.zero_mod, ite_self, step]
  have enough : size ≤ pageBitmapSize size * 8 := by
    simp only [pageBitmapSize]
    omega
  rw [loop, scan_eq]
  cases found : (range (pageBitmapSize size * 8)).find? fun index => !bitAt area index with
  | none =>
    rw [find?_range_eq_none] at found
    exact fun index bound => by simpa using found index (by omega)
  | some index =>
    obtain ⟨clear, -, before⟩ := find?_range_eq_some.mp found
    by_cases bound : index < size
    · rw [filter_some_pos (by simpa using bound)]
      exact ⟨bound, by simpa using clear⟩
    · rw [filter_some_neg (by simpa using bound)]
      exact fun other less => by simpa using before other (by omega)

end Scan

variable {area : Area} {stored : Stored}

section Changes

variable {slot : Nat} {byte : Byte}

theorem bitAt_change {change : Byte → Nat → Byte} {flag : Bool} (slot : Nat)
    (changed : ∀ byte, ∀ bit < 8, ∀ other,
      testBit (change byte bit) other = if other = bit then flag else testBit byte other)
    (other : Nat) :
    bitAt (update area (pageHeaderSize + slot / 8)
      (change (area (pageHeaderSize + slot / 8)) (slot % 8))) other =
      if other = slot then flag else bitAt area other := by
  by_cases block : other / 8 = slot / 8
  · rw [bitAt, block, update_self, changed _ _ (Nat.mod_lt _ (by decide)), bitAt, block]
    exact if_congr (by omega) rfl rfl
  · have apart : other ≠ slot := fun same => block (by rw [same])
    rw [if_neg apart, bitAt, update_of_ne (by omega), bitAt]

theorem card_used_le (size : Nat) (stored : Stored) :
    (used size stored).card ≤ capacityOf size := by
  have below := Finset.card_filter_le (Finset.range (capacityOf size))
    fun slot => (stored slot).isSome = true
  rwa [Finset.card_range] at below

theorem used_update_some (inside : slot < capacityOf size) (free : stored slot = none)
    (data : List Byte) :
    (used size (update stored slot (some data))).card = (used size stored).card + 1 := by
  have grown : used size (update stored slot (some data)) =
      insert slot (used size stored) := by
    ext other
    by_cases same : other = slot
    · subst same
      simp [used, inside]
    · simp [used, same]
  rw [grown, Finset.card_insert_of_notMem (by simp [used, free])]

theorem used_update_none (inside : slot < capacityOf size) (held : (stored slot).isSome = true) :
    (used size (update stored slot none)).card + 1 = (used size stored).card := by
  have shrunk : used size (update stored slot none) = (used size stored).erase slot := by
    ext other
    by_cases same : other = slot
    · subst same
      simp [used]
    · simp [used, same]
  have member : slot ∈ used size stored := by simp [used, inside, held]
  rw [shrunk, Finset.card_erase_add_one member]

theorem recordNum_update :
    recordNum (update area (pageHeaderSize + slot / 8) byte) = area.recordNum := by
  refine readInt_congr fun index _ less => update_of_ne ?_ _ _
  have headerSize : pageHeaderSize = 28 := rfl
  omega

variable (positive : 0 < size) (small : size ≤ maxRecordSize)

include positive small

variable (represents : Represents size area stored) (inside : slot < capacityOf size)
include represents inside

theorem Represents.recount {after : Option (List Byte)} {number : Int}
    (bits : ∀ other, bitAt (update area (pageHeaderSize + slot / 8) byte) other =
      if other = slot then after.isSome else bitAt area other)
    (here : ∀ data ∈ after, data = area.read (slotStart size slot) size)
    (counted : number = (used size (update stored slot after)).card) :
    Represents size (writeInt (update area (pageHeaderSize + slot / 8) byte) 0 number)
      (update stored slot after) := by
  obtain ⟨_, few, _, _⟩ := layout positive small
  have card := card_used_le size (update stored slot after)
  have place := bit_byte positive small inside
  have headerSize : pageHeaderSize = 28 := rfl
  have away : ∀ start, 4 ≤ start → start + 4 ≤ pageHeaderSize →
      (writeInt (update area (pageHeaderSize + slot / 8) byte) 0 number).readInt start =
        area.readInt start := by
    intro start lower upper
    rw [readInt_writeInt_apart (.inr (by omega))]
    exact readInt_congr fun index _ less => update_of_ne (by omega) _ _
  constructor
  · rw [Area.recordNum, readInt_writeInt (by omega) (by omega), counted]
  · exact (away 8 (by decide) (by decide)).trans represents.realSize
  · exact (away 12 (by decide) (by decide)).trans represents.slotSize
  · exact (away 16 (by decide) (by decide)).trans represents.capacity
  · exact (away 24 (by decide) (by decide)).trans represents.dataOffset
  · intro other bound
    rw [bitAt, writeInt, write_apart (.inr (by rw [length_encode_int, pageHeaderSize]; omega)),
      ← bitAt, bits, represents.bits other bound]
    by_cases same : other = slot
    · simp [same]
    · simp [same]
  · intro other beyond
    rw [update_of_ne (by omega)]
    exact represents.within other beyond
  · intro other data held
    have record : (writeInt (update area (pageHeaderSize + slot / 8) byte) 0 number).read
        (slotStart size other) size = area.read (slotStart size other) size := by
      refine read_congr fun index lower upper => ?_
      have behind : dataOffsetOf size ≤ slotStart size other := Nat.le_add_right _ _
      rw [Area.writeInt, write_apart (.inr (by rw [length_encode_int]; omega)),
        update_of_ne (by omega)]
    rw [record]
    by_cases same : other = slot
    · subst same
      rw [update_self] at held
      have content := here data held
      exact ⟨by rw [content, length_read], content.symm⟩
    · rw [update_of_ne same] at held
      exact represents.records other data held

theorem Represents.mark (free : stored slot = none) :
    Represents size
      (count (update area (pageHeaderSize + slot / 8)
        (setBit (area (pageHeaderSize + slot / 8)) (slot % 8))) 1)
      (update stored slot (some (area.read (slotStart size slot) size))) := by
  refine represents.recount positive small inside (bitAt_change slot testBit_setBit)
    (fun data held => (some.inj held).symm) ?_
  rw [recordNum_update, represents.recordNum, used_update_some inside free]
  rfl

theorem Represents.unmark (held : (stored slot).isSome = true) :
    Represents size
      (count (update area (pageHeaderSize + slot / 8)
        (clearBit (area (pageHeaderSize + slot / 8)) (slot % 8))) (-1))
      (update stored slot none) := by
  refine represents.recount positive small inside (bitAt_change slot testBit_clearBit) (by simp) ?_
  have card := used_update_none inside held
  rw [recordNum_update, represents.recordNum]
  omega

theorem Represents.store (held : (stored slot).isSome = true) {data : List Byte}
    (length : data.length = size) :
    Represents size (area.write (slotStart size slot) data)
      (update stored slot (some data)) := by
  have place := slot_inside positive small inside
  have start : pageHeaderSize < dataOffsetOf size := by
    have bound := bit_byte positive small inside
    omega
  have field : ∀ start, start + 4 ≤ pageHeaderSize →
      (area.write (slotStart size slot) data).readInt start = area.readInt start :=
    fun start below => readInt_congr fun index _ less => write_apart (.inl (by omega))
  have same : used size (update stored slot (some data)) = used size stored := by
    refine Finset.filter_congr fun other _ => ?_
    by_cases same : other = slot
    · subst same
      simp [held]
    · rw [update_of_ne same]
  constructor
  · rw [Area.recordNum, field 0 (by decide), same]
    exact represents.recordNum
  · exact (field 8 (by decide)).trans represents.realSize
  · exact (field 12 (by decide)).trans represents.slotSize
  · exact (field 16 (by decide)).trans represents.capacity
  · exact (field 24 (by decide)).trans represents.dataOffset
  · intro other bound
    have byte := bit_byte positive small bound
    rw [bitAt, write_apart (.inl (by omega)), ← bitAt, represents.bits other bound]
    by_cases equal : other = slot
    · subst equal
      rw [update_self, held]
      rfl
    · rw [update_of_ne equal]
  · intro other beyond
    rw [update_of_ne (by omega)]
    exact represents.within other beyond
  · intro other content kept
    by_cases equal : other = slot
    · subst equal
      rw [update_self, some.injEq] at kept
      subst kept
      refine ⟨length, ?_⟩
      have read := read_write_same area (slotStart size other) data
      rwa [length] at read
    · rw [update_of_ne equal] at kept
      obtain ⟨known, bytes⟩ := represents.records other content kept
      refine ⟨known, ?_⟩
      rw [read_write_apart, bytes]
      rw [length]
      exact slots_apart positive small equal

end Changes

def remember (stored : Stored) : Call → Reply → Stored
  | .insert data, .inserted slot => update stored slot.toNat (some data)
  | .delete slot, .done => update stored slot.toNat none
  | .update slot data, .done => update stored slot.toNat (some data)
  | _, _ => stored

structure Page where
  area : Area
  stored : Stored

def step (page : Page) (call : Call) : Option Page :=
  (perform page.area call).map fun result => ⟨result.1, remember page.stored call result.2⟩

/-- A record has the record's size, and the bit that decides about a slot without a place on
the page is there and clear. -/
def Tame (page : Page) : Call → Prop
  | .insert data => (data.length : Int) = page.area.recordRealSize
  | .delete slot => 0 ≤ slot ∧ slot < page.area.recordCapacity ∨ getBit page.area slot = some false
  | .update slot data => (data.length : Int) = page.area.recordRealSize ∧
      (0 ≤ slot ∨ getBit page.area slot = some false)
  | .get slot => 0 ≤ slot ∨ getBit page.area slot = some false

instance (page : Page) (call : Call) : Decidable (Tame page call) := by
  cases call <;> dsimp only [Tame] <;> infer_instance

def storedAt (stored : Stored) (slot : Int) : Option (List Byte) :=
  if 0 ≤ slot then stored slot.toNat else none

def Answers (size : Nat) (stored : Stored) : Call → Reply → Prop
  | .insert _, reply =>
    (∃ slot < capacityOf size, stored slot = none ∧ reply = .inserted slot) ∨
      (∃ code, reply = .error code) ∧ ∀ slot < capacityOf size, (stored slot).isSome = true
  | .delete slot, reply => if (storedAt stored slot).isSome then reply = .done else ∃ code, reply = .error code
  | .update slot _, reply =>
    if (storedAt stored slot).isSome then reply = .done else ∃ code, reply = .error code
  | .get slot, reply =>
    match storedAt stored slot with
    | some data => reply = .record data
    | none => ∃ code, reply = .error code

def Kept (size : Nat) (area : Area) (stored : Stored) (call : Call) : Prop :=
  ∃ after reply, perform area call = some (after, reply) ∧ Answers size stored call reply ∧
    Represents size after (remember stored call reply) ∧ ((∃ code, reply = .error code) → after = area)

section Calls

variable (positive : 0 < size) (small : size ≤ maxRecordSize)

include positive small

section

variable (represents : Represents size area stored)
include represents

theorem Represents.getBit_eq {slot : Nat}
    (inside : slot < capacityOf size) : getBit area slot = some (stored slot).isSome := by
  rw [getBit, bitPlace_natCast positive small inside, map_some, ← represents.bits slot inside]
  rfl

theorem Represents.recordData_eq {slot : Nat}
    (inside : slot < capacityOf size) : recordData area slot = some (slotStart size slot) := by
  have place := slot_inside positive small inside
  rw [recordData, represents.dataOffset, represents.slotSize, represents.realSize]
  simp only [← slotStart_cast]
  rw [if_pos (by omega), Int.toNat_natCast]

variable {data : List Byte}

theorem Represents.insertRecord_eq (length : data.length = size) (room : area.recordNum ≠ area.recordCapacity) {slot : Nat}
    (inside : slot < capacityOf size) (empty : stored slot = none)
    (found : nextUnsettedBit area (capacityOf size) 0 = some slot) :
    insertRecord area data =
      some ((count (update area (pageHeaderSize + slot / 8)
        (setBit (area (pageHeaderSize + slot / 8)) (slot % 8))) 1).write (slotStart size slot) data,
        .inserted slot) := by
  have marked := represents.mark positive small inside empty
  have changed : changeBit setBit area slot = some (update area
      (pageHeaderSize + slot / 8) (setBit (area (pageHeaderSize + slot / 8)) (slot % 8))) := by
    rw [changeBit, bitPlace_natCast positive small inside, map_some]
  rw [insertRecord, if_neg room, represents.capacity, Int.toNat_natCast, found]
  change insertAt area slot data = _
  rw [insertAt, changed, bind_some, marked.recordData_eq positive small inside,
    map_some, marked.realSize, Int.toNat_natCast, take_of_length_le length.le]

theorem Represents.insert (length : data.length = size) :
    Kept size area stored (.insert data) := by
  have capacity := represents.capacity
  have number := represents.recordNum
  by_cases full : area.recordNum = area.recordCapacity
  · refine ⟨area, .error .recordNomem, ?_, .inr ⟨⟨_, rfl⟩, ?_⟩, represents, fun _ => rfl⟩
    · rw [perform, insertRecord, if_pos full]
    · have all : (used size stored).card = (Finset.range (capacityOf size)).card := by
        rw [Finset.card_range]
        omega
      have whole := Finset.eq_of_subset_of_card_le (Finset.filter_subset _ _) all.ge
      intro slot inside
      have member : slot ∈ used size stored := by
        rw [used, whole]
        exact Finset.mem_range.mpr inside
      exact (Finset.mem_filter.mp member).2
  · have free := nextUnsettedBit_spec area (capacityOf size)
    cases found : nextUnsettedBit area (capacityOf size) 0 with
    | none =>
      rw [found] at free
      have whole : used size stored = Finset.range (capacityOf size) :=
        Finset.filter_true_of_mem fun slot member => by
          rw [← represents.bits slot (Finset.mem_range.mp member)]
          exact free slot (Finset.mem_range.mp member)
      rw [whole, Finset.card_range] at number
      exact absurd (number.trans capacity.symm) full
    | some slot =>
      rw [found] at free
      obtain ⟨inside, clear⟩ := free
      have empty : stored slot = none := by
        rw [represents.bits slot inside] at clear
        simpa using clear
      have marked := represents.mark positive small inside empty
      have kept := marked.store positive small inside (by simp) length
      rw [update_idem] at kept
      refine ⟨_, .inserted slot, ?_, .inl ⟨slot, inside, empty, rfl⟩, kept, ?_⟩
      · exact represents.insertRecord_eq positive small length full inside empty found
      · rintro ⟨code, ⟨⟩⟩

variable {slot : Int}

theorem Represents.slot_cases
    (tame : 0 ≤ slot ∧ slot < area.recordCapacity ∨ getBit area slot = some false) :
    (∃ (place : Nat) (data : List Byte), place < capacityOf size ∧ slot = place ∧
      stored place = some data ∧ getBit area slot = some true) ∨
      storedAt stored slot = none ∧ getBit area slot = some false := by
  by_cases inside : 0 ≤ slot ∧ slot < area.recordCapacity
  · obtain ⟨place, rfl⟩ := Int.eq_ofNat_of_zero_le inside.1
    have bound : place < capacityOf size := by
      have capacity := represents.capacity
      omega
    have bit := represents.getBit_eq positive small bound
    cases kept : stored place with
    | some data =>
      rw [kept] at bit
      exact .inl ⟨place, data, bound, rfl, kept, bit⟩
    | none =>
      rw [kept] at bit
      exact .inr ⟨by simp [storedAt, kept], bit⟩
  · refine .inr ⟨?_, tame.resolve_left inside⟩
    rw [storedAt]
    split
    · have capacity := represents.capacity
      exact represents.within _ (by omega)
    · rfl

theorem Represents.checked_cases (tame : 0 ≤ slot ∨ getBit area slot = some false) :
    (area.recordCapacity ≤ slot ∧ storedAt stored slot = none) ∨ ¬area.recordCapacity ≤ slot ∧
      ((∃ (place : Nat) (data : List Byte), place < capacityOf size ∧ slot = place ∧
        stored place = some data ∧ getBit area slot = some true) ∨
        storedAt stored slot = none ∧ getBit area slot = some false) := by
  by_cases beyond : area.recordCapacity ≤ slot
  · have capacity := represents.capacity
    rw [storedAt, if_pos (by omega)]
    exact .inl ⟨beyond, represents.within _ (by omega)⟩
  · exact .inr ⟨beyond, represents.slot_cases positive small
      (tame.imp_left fun natural => ⟨natural, Int.not_le.mp beyond⟩)⟩

theorem Represents.delete
    (tame : 0 ≤ slot ∧ slot < area.recordCapacity ∨ getBit area slot = some false) :
    Kept size area stored (.delete slot) := by
  rcases represents.slot_cases positive small tame with
    ⟨place, data, inside, rfl, kept, bit⟩ | ⟨empty, bit⟩
  · have cleared := represents.unmark positive small inside (by simp [kept])
    refine ⟨_, .done, ?_, ?_, cleared, ?_⟩
    · rw [perform, deleteRecord, bit, bind_some, if_pos rfl, changeBit,
        bitPlace_natCast positive small inside, map_some, map_some]
    · simp [Answers, storedAt, kept]
    · rintro ⟨code, ⟨⟩⟩
  · refine ⟨area, .error .recordNotExist, ?_, ?_, represents, fun _ => rfl⟩
    · rw [perform, deleteRecord, bit, bind_some, if_neg Bool.false_ne_true]
    · simp [Answers, empty]

theorem Represents.update (length : data.length = size)
    (tame : 0 ≤ slot ∨ getBit area slot = some false) :
    Kept size area stored (.update slot data) := by
  rcases represents.checked_cases positive small tame with
    ⟨beyond, empty⟩ | ⟨inRange, ⟨place, old, inside, rfl, kept, bit⟩ | ⟨empty, bit⟩⟩
  · refine ⟨area, .error .invalidArgument, ?_, ?_, represents, fun _ => rfl⟩
    · rw [perform, updateRecord, if_pos beyond]
    · simp [Answers, empty]
  · have written := represents.store positive small inside (by simp [kept]) length
    refine ⟨_, .done, ?_, ?_, written, ?_⟩
    · rw [perform, updateRecord, if_neg inRange, bit, bind_some, if_pos rfl,
        represents.recordData_eq positive small inside, map_some, represents.realSize,
        Int.toNat_natCast, take_of_length_le length.le]
    · simp [Answers, storedAt, kept]
    · rintro ⟨code, ⟨⟩⟩
  · refine ⟨area, .error .recordNotExist, ?_, ?_, represents, fun _ => rfl⟩
    · rw [perform, updateRecord, if_neg inRange, bit, bind_some, if_neg Bool.false_ne_true]
    · simp [Answers, empty]

theorem Represents.get (tame : 0 ≤ slot ∨ getBit area slot = some false) :
    Kept size area stored (.get slot) := by
  rcases represents.checked_cases positive small tame with
    ⟨beyond, empty⟩ | ⟨inRange, ⟨place, data, inside, rfl, kept, bit⟩ | ⟨empty, bit⟩⟩
  · refine ⟨area, .error .recordInvalidRid, ?_, ?_, represents, fun _ => rfl⟩
    · rw [perform, getRecord, if_pos beyond]
    · simp [Answers, empty]
  · obtain ⟨_, bytes⟩ := represents.records place data kept
    refine ⟨area, .record data, ?_, ?_, represents, fun _ => rfl⟩
    · rw [perform, getRecord, if_neg inRange, bit, bind_some, if_pos rfl,
        represents.recordData_eq positive small inside, map_some, represents.realSize,
        Int.toNat_natCast, bytes]
    · simp [Answers, storedAt, kept]
  · refine ⟨area, .error .recordNotExist, ?_, ?_, represents, fun _ => rfl⟩
    · rw [perform, getRecord, if_neg inRange, bit, bind_some, if_neg Bool.false_ne_true]
    · simp [Answers, empty]

theorem Represents.kept {call : Call} (tame : Tame ⟨area, stored⟩ call) :
    Kept size area stored call := by
  have realSize := represents.realSize
  cases call with
  | insert data =>
    have length : (data.length : Int) = area.recordRealSize := tame
    exact represents.insert positive small (by omega)
  | delete slot => exact represents.delete positive small tame
  | update slot data =>
    have length : (data.length : Int) = area.recordRealSize := tame.1
    exact represents.update positive small (by omega) tame.2
  | get slot => exact represents.get positive small tame

end

theorem initEmptyPage_represents (area : Area) :
    Represents size (initEmptyPage area size) fun _ => none := by
  obtain ⟨_, few, bitmap, slots⟩ := layout positive small
  have rounded := (slotSize_bounds positive small).2.2
  have offset : dataOffsetOf size ≤ 8180 := by
    simp only [pageDataSize] at slots
    omega
  have field (start : Nat) (header : start + 4 ≤ pageHeaderSize) (written : Area) (count : Nat) :
      (written.write pageHeaderSize (replicate count 0)).readInt start = written.readInt start :=
    readInt_congr fun index _ upper => write_apart (.inl (by omega))
  constructor
  · rw [used, Finset.filter_false_of_mem (by simp), recordNum, initEmptyPage,
      field 0 (by decide)]
    repeat rw [readInt_writeInt_apart (by omega)]
    rw [readInt_writeInt (by decide) (by decide)]
    rfl
  · rw [recordRealSize, initEmptyPage, field 8 (by decide)]
    repeat rw [readInt_writeInt_apart (by omega)]
    rw [maxRecordSize] at small
    rw [readInt_writeInt (by omega) (by omega)]
  · rw [recordSize, initEmptyPage, field 12 (by decide)]
    repeat rw [readInt_writeInt_apart (by omega)]
    exact readInt_writeInt (by omega) (by change (slotSizeOf size : Int) < 2 ^ 31; omega) _ _
  · rw [recordCapacity, initEmptyPage, field 16 (by decide)]
    repeat rw [readInt_writeInt_apart (by omega)]
    exact readInt_writeInt (by omega) (by change (capacityOf size : Int) < 2 ^ 31; omega) _ _
  · rw [dataOffset, initEmptyPage, field 24 (by decide)]
    exact readInt_writeInt (by omega) (by change (dataOffsetOf size : Int) < 2 ^ 31; omega) _ _
  · intro slot inside
    have byte : slot / 8 < pageBitmapSize (capacityOf size) := by
      rw [pageBitmapSize]
      omega
    have clear : initEmptyPage area size (pageHeaderSize + slot / 8) = 0 := by
      have within : pageHeaderSize + slot / 8 < pageHeaderSize +
          (replicate (pageBitmapSize (emptyHeader size 0).recordCapacity) (0 : Byte)).length := by
        rw [length_replicate]
        exact Nat.add_lt_add_left byte _
      rw [initEmptyPage, write, if_pos ⟨Nat.le_add_right _ _, within⟩,
        Nat.add_sub_cancel_left, getD_eq_getElem?_getD, getElem?_replicate]
      split <;> rfl
    rw [bitAt, clear]
    simp [testBit]
  · exact fun _ _ => rfl
  · intro slot data kept
    simp at kept

end Calls

theorem reached_represents (positive : 0 < size) (small : size ≤ maxRecordSize) {page : Page}
    (reached : Reaches step Tame ⟨initEmptyPage area size, fun _ => none⟩ page) :
    Represents size page.area page.stored := by
  refine reaches_invariant (fun page => Represents size page.area page.stored) ?_
    (initEmptyPage_represents positive small area) reached
  intro page call next represents tame taken
  obtain ⟨after, reply, performed, _, kept, _⟩ := represents.kept positive small tame
  rw [step, performed, map_some, some.injEq] at taken
  subst taken
  exact kept

structure LaidOut (area : Area) : Prop where
  roomForOne : 1 ≤ area.recordCapacity
  bitmap : pageHeaderSize + pageBitmapSize area.recordCapacity.toNat ≤ area.dataOffset
  inside : ∀ slot : Int, 0 ≤ slot → slot < area.recordCapacity →
    area.dataOffset ≤ area.dataOffset + area.recordSize * slot ∧
      area.dataOffset + area.recordSize * slot + area.recordRealSize ≤ pageDataSize
  apart : ∀ slot other : Int, slot < other →
    area.dataOffset + area.recordSize * slot + area.recordRealSize ≤
      area.dataOffset + area.recordSize * other

theorem Represents.laidOut (positive : 0 < size) (small : size ≤ maxRecordSize)
    (represents : Represents size area stored) : LaidOut area := by
  obtain ⟨one, _, bitmap, _⟩ := layout positive small
  have bounds := slotSize_bounds positive small
  constructor
  · rw [represents.capacity]
    omega
  · rw [represents.capacity, represents.dataOffset, Int.toNat_natCast]
    omega
  · intro slot lower upper
    obtain ⟨place, rfl⟩ := Int.eq_ofNat_of_zero_le lower
    rw [represents.capacity] at upper
    have inside := slot_inside positive small (Int.ofNat_lt.mp upper)
    rw [represents.dataOffset, represents.slotSize, represents.realSize, ← slotStart_cast]
    omega
  · intro slot other before
    have next : (slotSizeOf size : Int) * (slot + 1) ≤ slotSizeOf size * other :=
      Int.mul_le_mul_of_nonneg_left (Int.add_one_le_of_lt before) (Int.natCast_nonneg _)
    rw [Int.mul_add, Int.mul_one] at next
    rw [represents.dataOffset, represents.slotSize, represents.realSize]
    omega

theorem record_page_laws {size : Nat} (positive : 0 < size) (small : size ≤ maxRecordSize)
    {area : Area} {page : Page}
    (reached : Reaches step Tame ⟨initEmptyPage area size, fun _ => none⟩ page) :
    LaidOut page.area ∧
      page.area.recordNum = ((Finset.range page.area.recordCapacity.toNat).filter
        fun slot => bitAt page.area slot = true).card ∧
      ∀ call, Tame page call → Kept size page.area page.stored call := by
  have represents := reached_represents positive small reached
  refine ⟨represents.laidOut positive small, ?_, fun _ tame => represents.kept positive small tame⟩
  rw [represents.recordNum, represents.capacity, Int.toNat_natCast]
  refine congrArg (fun slots => ((Finset.card slots : Nat) : Int)) (Finset.filter_congr ?_)
  intro slot member
  rw [represents.bits slot (Finset.mem_range.mp member)]

def freshPage : Page := ⟨initEmptyPage (fun _ => 0) 8, fun _ => none⟩

def freshPageCalls : List Call :=
  [.insert [1, 2, 3, 4, 5, 6, 7, 8], .insert [0, 0, 0, 0, 0, 0, 0, 0], .delete 0, .delete 7,
    .get 5000]

theorem record_page_laws_after_calls :
    ∃ page, run step Tame freshPage freshPageCalls = some page ∧ LaidOut page.area ∧
      Kept 8 page.area page.stored (.update 1 [9, 9, 9, 9, 9, 9, 9, 9]) := by
  have runs : (run step Tame freshPage freshPageCalls).isSome = true := by decide +kernel
  have tame : ∀ runs, Tame ((run step Tame freshPage freshPageCalls).get runs)
      (.update 1 [9, 9, 9, 9, 9, 9, 9, 9]) := by decide +kernel
  obtain ⟨laid, _, kept⟩ :=
    record_page_laws (by decide) (by decide) (run_get_reaches runs)
  exact ⟨_, (some_get runs).symm, laid, kept _ (tame runs)⟩

/-- A page of one-byte records has 1002 slots and its records begin at byte 160. The bit of slot
1056 is in the first record: deleting that slot changes the record to 254 and makes the
page count no record, while its bitmap still has one. -/
theorem delete_beyond_capacity :
    ((insertRecord (initEmptyPage (fun _ => 0) 1) [255]).bind fun inserted =>
      (deleteRecord inserted.1 1056).bind fun deleted =>
        (getRecord deleted.1 0).map fun got =>
          (inserted.1.recordCapacity, deleted.2, deleted.1.recordNum, bitAt deleted.1 0, got.2)) =
      some (1002, .done, 0, true, .record [254]) ∧
    capacityOf 9000 = 0 := by
  decide +kernel

end CsuDbms.RecordPageBytes
