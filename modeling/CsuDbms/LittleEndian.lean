import Mathlib

/-!
# Integers as bytes

Signed integers of a fixed width in memory order, lowest byte first. A value
out of range wraps around as a conversion to the width does. Nothing here names
a particular format.
-/

namespace CsuDbms.LittleEndian

abbrev Byte := Fin 256

instance byteNeZero : NeZero 256 := ⟨by decide⟩

def encodeNat : Nat → Nat → List Byte
  | 0, _ => []
  | width + 1, value => Fin.ofNat 256 value :: encodeNat width (value / 256)

def decodeNat : List Byte → Nat
  | [] => 0
  | byte :: rest => byte + 256 * decodeNat rest

/-- Conversion to a signed integer of so many bytes. -/
def toSigned (width : Nat) (value : Int) : Int := value.bmod (256 ^ width)

def encodeInt (width : Nat) (value : Int) : List Byte :=
  encodeNat width (value % (256 ^ width : Nat)).toNat

def decodeInt (bytes : List Byte) : Int := toSigned bytes.length (decodeNat bytes)

@[simp] theorem length_encode_nat (width value : Nat) : (encodeNat width value).length = width := by
  induction width generalizing value with
  | zero => rfl
  | succ width ih => simp [encodeNat, ih]

@[simp] theorem length_encode_int (width : Nat) (value : Int) :
    (encodeInt width value).length = width := length_encode_nat _ _

theorem decode_encode_nat (width value : Nat) :
    decodeNat (encodeNat width value) = value % 256 ^ width := by
  induction width generalizing value with
  | zero => simp [encodeNat, decodeNat, Nat.mod_one]
  | succ width ih =>
    rw [encodeNat, decodeNat, ih, Nat.pow_succ', Nat.mod_mul]
    rfl

theorem decode_nat_lt (bytes : List Byte) : decodeNat bytes < 256 ^ bytes.length := by
  induction bytes with
  | nil => simp [decodeNat]
  | cons byte rest ih =>
    have small := byte.isLt
    rw [decodeNat, List.length_cons, Nat.pow_succ']
    omega

theorem encode_decode_nat (bytes : List Byte) : encodeNat bytes.length
    (decodeNat bytes) = bytes := by
  induction bytes with
  | nil => rfl
  | cons byte rest ih =>
    have small := byte.isLt
    have quotient : (byte + 256 * decodeNat rest) / 256 = decodeNat rest := by omega
    have remainder : Fin.ofNat 256 (byte + 256 * decodeNat rest) = byte := by
      apply Fin.ext
      simp only [Fin.ofNat]
      omega
    rw [List.length_cons, encodeNat, decodeNat, quotient, remainder, ih]

theorem to_signed_of_range {width : Nat} {value : Int} (lower : -((256 ^ width : Nat) / 2) ≤ value)
    (upper : value < ((256 ^ width : Nat) + 1) / 2) : toSigned width value = value :=
  Int.bmod_eq_of_le lower upper

@[simp] theorem to_signed_idem (width : Nat) (value : Int) :
    toSigned width (toSigned width value) = toSigned width value :=
  Int.bmod_bmod

theorem decode_encode_int (width : Nat) (value : Int) :
    decodeInt (encodeInt width value) = toSigned width value := by
  have positive : (0 : Int) < (256 ^ width : Nat) := by
    exact_mod_cast Nat.pow_pos (by decide : 0 < 256)
  have nonneg := Int.emod_nonneg value positive.ne'
  have below := Int.emod_lt_of_pos value positive
  have small : (value % (256 ^ width : Nat)).toNat < 256 ^ width := by omega
  rw [decodeInt, length_encode_int, encodeInt, decode_encode_nat, Nat.mod_eq_of_lt small,
    Int.toNat_of_nonneg nonneg]
  exact Int.emod_bmod _ _

theorem to_signed_le {width : Nat} {value : Int} (nonneg : 0 ≤ value) :
    toSigned width value ≤ value := by
  have modulus : (0 : Int) ≤ (256 ^ width : Nat) := Int.natCast_nonneg _
  have quotient := Int.ediv_nonneg nonneg modulus
  have whole := Int.mul_nonneg modulus quotient
  have division := Int.mul_ediv_add_emod value (256 ^ width : Nat)
  simp only [toSigned, Int.bmod]
  split
  · omega
  · omega

theorem to_signed_lt (width : Nat) (value : Int) :
    toSigned width value < ((256 ^ width : Nat) + 1) / 2 :=
  Int.bmod_lt (Nat.pow_pos (by decide))

end CsuDbms.LittleEndian
