import CsuDbms.LittleEndian

/-!
# Searching a bitmap

`Bitmap::next_setted_bit` and `next_unsetted_bit`. The search goes byte by byte, passes over a
byte that cannot have the wanted bit by its value, and looks at the size only at its end.
-/

namespace CsuDbms.BitmapModel

open LittleEndian List

def bytes (size : Nat) : Nat := if size % 8 = 0 then size / 8 else size / 8 + 1

def getBit (bitmap : Nat → Byte) (index : Nat) : Bool :=
  (bitmap (index / 8)).val.testBit (index % 8)

/-- `find_first_setted` for `true` and `find_first_zero` for `false`. -/
def findFirst (wanted : Bool) (byte : Byte) (start : Nat) : Option Nat :=
  (range' start (8 - start)).find? fun bit => byte.val.testBit bit == wanted

def search (wanted : Bool) (bitmap : Nat → Byte) : Nat → Nat → Nat → Option Nat
  | 0, _, _ => none
  | count + 1, iter, startInByte =>
    match if bitmap iter = (if wanted then 0 else 255) then none
      else findFirst wanted (bitmap iter) startInByte with
    | some indexInByte => some (iter * 8 + indexInByte)
    | none => search wanted bitmap count (iter + 1) 0

def nextBit (wanted : Bool) (bitmap : Nat → Byte) (size start : Nat) : Int :=
  match search wanted bitmap (bytes size - start / 8) (start / 8) (start % 8) with
  | some ret => if size ≤ ret then -1 else ret
  | none => -1

def nextSettedBit := nextBit true

def nextUnsettedBit := nextBit false

variable {wanted : Bool} {bitmap : Nat → Byte}

theorem passed_over_none {byte : Byte} (passed : byte = if wanted then 0 else 255) (start : Nat) :
    findFirst wanted byte start = none := by
  subst passed
  refine find?_eq_none.mpr fun bit inside => ?_
  have inByte : bit < 8 := by
    have := mem_range'_1.mp inside
    omega
  cases wanted with
  | false =>
    have set := Nat.testBit_two_pow_sub_one 8 bit
    simpa [inByte] using set
  | true => simp

theorem find_in_byte (iter startInByte : Nat) :
    (range' (iter * 8 + startInByte) (8 - startInByte)).find? (getBit bitmap · == wanted) =
      (findFirst wanted (bitmap iter) startInByte).map (iter * 8 + ·) := by
  rw [← map_add_range', find?_map, findFirst]
  congr 1
  refine find?_congr fun bit inside => ?_
  have inByte := mem_range'_1.mp inside
  have quotient : (iter * 8 + bit) / 8 = iter := by omega
  have remainder : (iter * 8 + bit) % 8 = bit := by omega
  simp only [Function.comp_apply, getBit, quotient, remainder]

theorem search_eq (count iter startInByte : Nat) (small : startInByte ≤ 8) :
    search wanted bitmap count iter startInByte =
      (range' (iter * 8 + startInByte) (count * 8 - startInByte)).find?
        (getBit bitmap · == wanted) := by
  induction count generalizing iter startInByte with
  | zero => simp [search]
  | succ count ih =>
    have parts : range' (iter * 8 + startInByte) ((count + 1) * 8 - startInByte) =
        range' (iter * 8 + startInByte) (8 - startInByte) ++
          range' ((iter + 1) * 8 + 0) (count * 8 - 0) := by
      have behind : (iter + 1) * 8 + 0 = iter * 8 + startInByte + (8 - startInByte) := by omega
      rw [behind, range'_append_1]
      congr 1
      omega
    have first : (if bitmap iter = (if wanted then 0 else 255) then none
        else findFirst wanted (bitmap iter) startInByte) =
        findFirst wanted (bitmap iter) startInByte :=
      ite_eq_right_iff.mpr fun passed => (passed_over_none passed startInByte).symm
    rw [search, first, parts, find?_append, find_in_byte, ← ih _ _ (Nat.zero_le 8)]
    cases findFirst wanted (bitmap iter) startInByte <;> rfl

/-- The smallest index from the start on and below the size with the wanted bit, or `-1`. -/
def Finds (wanted : Bool) (bitmap : Nat → Byte) (size start : Nat) (result : Int) : Prop :=
  (result = -1 ∧ ∀ other, start ≤ other → other < size → getBit bitmap other ≠ wanted) ∨
    ∃ index : Nat, result = index ∧ start ≤ index ∧ index < size ∧ getBit bitmap index = wanted ∧
      ∀ other, start ≤ other → other < index → getBit bitmap other ≠ wanted

theorem next_bit_finds (wanted : Bool) (bitmap : Nat → Byte) (size start : Nat) :
    Finds wanted bitmap size start (nextBit wanted bitmap size start) := by
  have start_eq : start / 8 * 8 + start % 8 = start := by omega
  have covered : size ≤ start + ((bytes size - start / 8) * 8 - start % 8) ∨ size ≤ start := by
    rw [bytes]
    split <;> omega
  rw [nextBit, search_eq _ _ _ (by omega), start_eq]
  generalize (bytes size - start / 8) * 8 - start % 8 = count at covered
  split
  · rename_i index found
    obtain ⟨holds, inside, least⟩ := find?_range'_eq_some.mp found
    have low := (mem_range'_1.mp inside).1
    have before : ∀ other, start ≤ other → other < index → getBit bitmap other ≠ wanted := by
      simpa using least
    split
    · exact .inl ⟨rfl, fun other above below => before other above (by omega)⟩
    · exact .inr ⟨index, rfl, low, by omega, by simpa using holds, before⟩
  · rename_i missing
    refine .inl ⟨rfl, fun other above below => ?_⟩
    have clear := find?_range'_eq_none.mp missing other above (by omega)
    simpa using clear

theorem next_bits_found (bitmap : Nat → Byte) (size start : Nat) :
    Finds true bitmap size start (nextSettedBit bitmap size start) ∧
      Finds false bitmap size start (nextUnsettedBit bitmap size start) :=
  ⟨next_bit_finds true bitmap size start, next_bit_finds false bitmap size start⟩

end CsuDbms.BitmapModel
