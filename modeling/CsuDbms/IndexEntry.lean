import CsuDbms.ValueModel

/-!
# Entries of an index

The key of a B+ tree is the bytes of a field, as the comparator reads them, with the `RID` of the
record behind them.
-/

namespace CsuDbms.IndexEntry

open ValueModel

structure Rid where
  pageNum : Int
  slotNum : Int
  deriving DecidableEq, Repr

def Rid.compare (left right : Rid) : Int :=
  if left.pageNum - right.pageNum ≠ 0 then left.pageNum - right.pageNum
  else left.slotNum - right.slotNum

/-- The key of an index: the bytes of the field, as the comparator reads them, and the
record they belong to. -/
structure Entry where
  key : Cell
  rid : Rid
  deriving DecidableEq, Repr

def keyCompare (left right : Entry) : Int :=
  if attrCompare left.key right.key ≠ 0 then attrCompare left.key right.key
  else left.rid.compare right.rid

def wordByte (word : BitVec 32) (index : Nat) : UInt8 :=
  UInt8.ofNat (word.toNat / 256 ^ index)

def readWord (memory : Nat → UInt8) : BitVec 32 :=
  BitVec.ofNat 32 ((memory 0).toNat + (memory 1).toNat * 256 + (memory 2).toNat * 256 ^ 2 +
    (memory 3).toNat * 256 ^ 3)

/-- `Value::set_data` for the type of the column. -/
def readKey : ColumnType → (Nat → UInt8) → Cell
  | .chars length, memory => .chars (((List.range length).map memory).takeWhile (· ≠ 0))
  | .ints, memory => .ints (readWord memory)
  | .floats, memory => .floats (readWord memory)
  | .dates, memory => .dates (readWord memory)

end CsuDbms.IndexEntry
