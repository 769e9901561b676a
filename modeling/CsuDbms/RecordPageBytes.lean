import CsuDbms.LittleEndian
import CsuDbms.RecordPageModel

/-!
# A record page as bytes

`RowRecordPageHandler` on the 8180 bytes of the data area: the seven integers of the
header, the bitmap behind them and the record slots. A slot number is any integer, as in
a `RID`. Reading or writing outside the area, and shifting by a negative number of bits,
has no defined result. Log appends succeed and change only the number of the page, which
is not in the area.
-/

namespace CsuDbms.RecordPageBytes

open BufferPoolHeaderModel LittleEndian RecordPageModel

abbrev Area := Nat → Byte

namespace Area

def read (area : Area) (offset count : Nat) : List Byte :=
  (List.range count).map fun index => area (offset + index)

def write (area : Area) (offset : Nat) (bytes : List Byte) : Area := fun index =>
  if offset ≤ index ∧ index < offset + bytes.length then bytes.getD (index - offset) 0
  else area index

def readInt (area : Area) (offset : Nat) : Int := decodeInt (area.read offset 4)

def writeInt (area : Area) (offset : Nat) (value : Int) : Area := area.write offset (encodeInt 4 value)

def recordNum (area : Area) : Int := area.readInt 0

def recordRealSize (area : Area) : Int := area.readInt 8

def recordSize (area : Area) : Int := area.readInt 12

def recordCapacity (area : Area) : Int := area.readInt 16

def dataOffset (area : Area) : Int := area.readInt 24

end Area

def testBit (byte : Byte) (bit : Nat) : Bool := byte.val.testBit bit

def setBit (byte : Byte) (bit : Nat) : Byte := Fin.ofNat 256 (byte.val ||| 2 ^ bit)

def clearBit (byte : Byte) (bit : Nat) : Byte := Fin.ofNat 256 (byte.val &&& (255 ^^^ 2 ^ bit))

/-- The byte and the bit that `Bitmap` takes for an index, if they are in the area. Division
in the source is towards zero. -/
def bitPlace (index : Int) : Option (Nat × Nat) :=
  let byte := (pageHeaderSize : Int) + index.tdiv 8
  let bit := index.tmod 8
  if 0 ≤ byte ∧ byte < pageDataSize ∧ 0 ≤ bit then some (byte.toNat, bit.toNat) else none

def getBit (area : Area) (index : Int) : Option Bool :=
  (bitPlace index).map fun place => testBit (area place.1) place.2

def changeBit (change : Byte → Nat → Byte) (area : Area) (index : Int) : Option Area :=
  (bitPlace index).map fun place => Function.update area place.1 (change (area place.1) place.2)

def findFirstZero (byte : Byte) (start : Nat) : Option Nat :=
  ((List.range 8).drop start).find? fun bit => !testBit byte bit

/-- The loop of `next_unsetted_bit` over the bytes of the bitmap, then the check of the size. -/
def nextUnsettedBit (area : Area) (size start : Nat) : Option Nat :=
  let found := (List.range' (start / 8) (pageBitmapSize size - start / 8)).findSome? fun iter =>
    if area (pageHeaderSize + iter) ≠ 255 then
      (findFirstZero (area (pageHeaderSize + iter)) (if iter = start / 8 then start % 8 else 0)).map
        fun bit => iter * 8 + bit
    else none
  found.filter fun index => decide (index < size)

/-- `get_record_data`: where a slot begins, if the record lies in the area. -/
def recordData (area : Area) (slot : Int) : Option Nat :=
  let start := area.dataOffset + area.recordSize * slot
  if 0 ≤ start ∧ start + area.recordRealSize ≤ pageDataSize then some start.toNat else none

/-- `init_empty_page`, which writes the header and clears the bitmap. -/
def initEmptyPage (area : Area) (recordSize : Nat) : Area :=
  let header := emptyHeader recordSize 0
  let area := area.writeInt 0 0
  let area := area.writeInt 4 0
  let area := area.writeInt 8 recordSize
  let area := area.writeInt 12 header.recordSize
  let area := area.writeInt 16 header.recordCapacity
  let area := area.writeInt 20 header.colIdxOffset
  let area := area.writeInt 24 header.dataOffset
  area.write pageHeaderSize (List.replicate (pageBitmapSize header.recordCapacity) 0)

inductive Call where
  | insert (data : List Byte)
  | delete (slot : Int)
  | update (slot : Int) (data : List Byte)
  | get (slot : Int)
  deriving DecidableEq

inductive Reply where
  | inserted (slot : Int)
  | done
  | record (data : List Byte)
  | error (code : RC)
  deriving DecidableEq

def Area.count (area : Area) (change : Int) : Area := area.writeInt 0 (area.recordNum + change)

/-- The part of `insert_record` after a free slot was looked for. -/
def insertAt (area : Area) (index : Int) (data : List Byte) : Option (Area × Reply) :=
  (changeBit setBit area index).bind fun marked =>
    (recordData (marked.count 1) index).map fun start =>
      ((marked.count 1).write start (data.take (marked.count 1).recordRealSize.toNat),
        .inserted index)

/-- `insert_record`. Bit `-1` is what the source takes when there is no free slot. -/
def insertRecord (area : Area) (data : List Byte) : Option (Area × Reply) :=
  if area.recordNum = area.recordCapacity then some (area, .error .recordNomem)
  else
    match nextUnsettedBit area area.recordCapacity.toNat 0 with
    | some slot => insertAt area slot data
    | none => insertAt area (-1) data

/-- `delete_record`, which does not look at the capacity. -/
def deleteRecord (area : Area) (slot : Int) : Option (Area × Reply) :=
  (getBit area slot).bind fun bit =>
    if bit then (changeBit clearBit area slot).map fun cleared => (cleared.count (-1), .done)
    else some (area, .error .recordNotExist)

def updateRecord (area : Area) (slot : Int) (data : List Byte) : Option (Area × Reply) :=
  if area.recordCapacity ≤ slot then some (area, .error .invalidArgument)
  else
    (getBit area slot).bind fun bit =>
      if bit then
        (recordData area slot).map fun start =>
          (area.write start (data.take area.recordRealSize.toNat), .done)
      else some (area, .error .recordNotExist)

def getRecord (area : Area) (slot : Int) : Option (Area × Reply) :=
  if area.recordCapacity ≤ slot then some (area, .error .recordInvalidRid)
  else
    (getBit area slot).bind fun bit =>
      if bit then
        (recordData area slot).map fun start =>
          (area, .record (area.read start area.recordRealSize.toNat))
      else some (area, .error .recordNotExist)

def perform (area : Area) : Call → Option (Area × Reply)
  | .insert data => insertRecord area data
  | .delete slot => deleteRecord area slot
  | .update slot data => updateRecord area slot data
  | .get slot => getRecord area slot

section Bits

theorem testBit_ofNat (value other : Nat) :
    testBit (Fin.ofNat 256 value) other = (decide (other < 8) && value.testBit other) := by
  change (value % 2 ^ 8).testBit other = _
  exact Nat.testBit_mod_two_pow ..

theorem testBit_high (byte : Byte) {other : Nat} (high : 8 ≤ other) :
    testBit byte other = false := by
  have bound : 2 ^ 8 ≤ 2 ^ other := Nat.pow_le_pow_right (by decide) high
  exact Nat.testBit_lt_two_pow (Nat.lt_of_lt_of_le byte.isLt bound)

theorem testBit_setBit (byte : Byte) (bit : Nat) (inByte : bit < 8) (other : Nat) :
    testBit (setBit byte bit) other = if other = bit then true else testBit byte other := by
  rw [setBit, testBit_ofNat, Nat.testBit_or, Nat.testBit_two_pow, testBit]
  by_cases same : other = bit
  · simp [same, inByte]
  · by_cases small : other < 8
    · simp [small, same, Ne.symm same]
    · simp [small, same]
      exact testBit_high byte (Nat.not_lt.mp small)

theorem testBit_clearBit (byte : Byte) (bit : Nat) (inByte : bit < 8) (other : Nat) :
    testBit (clearBit byte bit) other = if other = bit then false else testBit byte other := by
  rw [clearBit, testBit_ofNat, Nat.testBit_and, Nat.testBit_xor, Nat.testBit_two_pow,
    show (255 : Nat) = 2 ^ 8 - 1 from rfl, Nat.testBit_two_pow_sub_one, testBit]
  by_cases same : other = bit
  · simp [same, inByte]
  · by_cases small : other < 8
    · simp [small, same, Ne.symm same]
    · simp [small, same]
      exact testBit_high byte (Nat.not_lt.mp small)

end Bits

section Memory

variable {area : Area} {bytes : List Byte} {offset start count : Nat}

@[simp] theorem length_read (area : Area) (offset count : Nat) :
    (area.read offset count).length = count := by
  simp [Area.read]

theorem read_write_same (area : Area) (offset : Nat) (bytes : List Byte) :
    (area.write offset bytes).read offset bytes.length = bytes := by
  refine List.ext_getElem (by simp) fun index _ bound => ?_
  simp [Area.read, Area.write, bound]

theorem write_apart {index : Nat} (apart : index < offset ∨ offset + bytes.length ≤ index) :
    area.write offset bytes index = area index := by
  rw [Area.write, if_neg (by omega)]

theorem read_congr {other : Area} (same : ∀ index, start ≤ index → index < start + count →
    other index = area index) : other.read start count = area.read start count := by
  refine List.map_congr_left fun index member => ?_
  have bound := List.mem_range.mp member
  exact same _ (by omega) (by omega)

theorem read_write_apart (apart : start + count ≤ offset ∨ offset + bytes.length ≤ start) :
    (area.write offset bytes).read start count = area.read start count :=
  read_congr fun _ lower upper => write_apart (by omega)

@[simp] theorem readInt_writeInt {value : Int} (lower : -2 ^ 31 ≤ value) (upper : value < 2 ^ 31)
    (area : Area) (offset : Nat) : (area.writeInt offset value).readInt offset = value := by
  have length : (encodeInt 4 value).length = 4 := length_encode_int 4 value
  have read := read_write_same area offset (encodeInt 4 value)
  rw [length] at read
  rw [Area.readInt, Area.writeInt, read, decode_encode_int]
  have half : ((256 ^ 4 : Nat) : Int) = 2 ^ 32 := by decide
  exact to_signed_of_range (by omega) (by omega)

theorem readInt_writeInt_apart {value : Int} (apart : start + 4 ≤ offset ∨ offset + 4 ≤ start) :
    (area.writeInt offset value).readInt start = area.readInt start := by
  rw [Area.readInt, Area.writeInt, read_write_apart (by rwa [length_encode_int]), Area.readInt]

theorem readInt_congr {other : Area} (same : ∀ index, start ≤ index → index < start + 4 →
    other index = area index) : other.readInt start = area.readInt start := by
  rw [Area.readInt, read_congr same, Area.readInt]

end Memory

end CsuDbms.RecordPageBytes
