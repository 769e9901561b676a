import CsuDbms.LogicalPlanModel

/-!
# Values and their comparison

`Value` with the types that columns and constants can have, its conversions and
the comparison of `DataType`. A `float` is its 32 bits; the arithmetic that the
comparison needs is exact on what the bits stand for. The release build has no
assertions: a string compared with something that is not a string reads it as a
pointer, and that comparison has no result here.
-/

namespace CsuDbms.ValueModel

open LogicalPlanModel

/-- `Value`. The text of a string has no zero byte. -/
inductive Cell where
  | null
  | chars (text : List UInt8)
  | ints (number : BitVec 32)
  | floats (bits : BitVec 32)
  | booleans (flag : Bool)
  | dates (number : BitVec 32)
  deriving DecidableEq, Repr

def floatExponent (bits : BitVec 32) : Nat := bits.toNat / 2 ^ 23 % 256

def floatFraction (bits : BitVec 32) : Nat := bits.toNat % 2 ^ 23

def floatIsNaN (bits : BitVec 32) : Bool :=
  floatExponent bits = 255 && floatFraction bits ≠ 0

/-- The number that the bits stand for, times `2 ^ 149`. An infinity counts as the
power of two that follows the largest number. -/
def floatScaled (bits : BitVec 32) : Int :=
  let magnitude : Nat :=
    if floatExponent bits = 0 then floatFraction bits
    else (floatFraction bits + 2 ^ 23) * 2 ^ (floatExponent bits - 1)
  if bits.msb then -magnitude else magnitude

/-- Half way, times `2 ^ 149`, between the two numbers next to `EPSILON` (1E-6). A
difference from here on is rounded to a `float` larger than `EPSILON`. -/
def epsilonScaled : Int := 17592187 * 2 ^ 105

def compareFloat (left right : BitVec 32) : Int :=
  if floatIsNaN left || floatIsNaN right then 0
  else if epsilonScaled ≤ floatScaled left - floatScaled right then 1
  else if floatScaled left - floatScaled right ≤ -epsilonScaled then -1
  else 0

/-- Division by `2 ^ shift`, rounded to the nearest number and to the even one of two. -/
def roundHalfEven (number shift : Nat) : Nat :=
  let quotient := number / 2 ^ shift
  let remainder := number % 2 ^ shift
  if 2 ^ shift < 2 * remainder ∨ 2 ^ shift = 2 * remainder ∧ quotient % 2 = 1 then quotient + 1
  else quotient

def floatOfNat (number : Nat) : Nat :=
  if number = 0 then 0
  else
    let exponent := Nat.log2 number
    let significand :=
      if exponent ≤ 23 then number * 2 ^ (23 - exponent)
      else roundHalfEven number (exponent - 23)
    (exponent + 127) * 2 ^ 23 + significand - 2 ^ 23

def floatOfInt (number : BitVec 32) : BitVec 32 :=
  if number.msb then BitVec.ofNat 32 (2 ^ 31 + floatOfNat number.toInt.natAbs)
  else BitVec.ofNat 32 (floatOfNat number.toNat)

/-- `int(float)`, with the result of the processor where the number is too large. -/
def intOfFloat (bits : BitVec 32) : BitVec 32 :=
  let whole := (floatScaled bits).tdiv (2 ^ 149)
  if !floatIsNaN bits && decide (-2 ^ 31 ≤ whole ∧ whole < 2 ^ 31) then BitVec.ofInt 32 whole
  else BitVec.ofNat 32 (2 ^ 31)

/-- `stol` and `stof` of a text, zero where they throw. -/
structure TextReading where
  stol : List UInt8 → BitVec 32
  stof : List UInt8 → BitVec 32

variable (reading : TextReading)

def Cell.getInt : Cell → BitVec 32
  | .chars text => reading.stol text
  | .ints number => number
  | .dates number => number
  | .floats bits => intOfFloat bits
  | .booleans flag => if flag then 1 else 0
  | .null => 0

def Cell.getFloat : Cell → BitVec 32
  | .chars text => reading.stof text
  | .ints number => floatOfInt number
  | .floats bits => bits
  | .booleans flag => floatOfInt (if flag then 1 else 0)
  | .dates _ => 0
  | .null => 0

/-- `Value::get_boolean`. A text counts as true, whatever it says. -/
def Cell.getBoolean : Cell → Bool
  | .chars _ => true
  | .ints number => number ≠ 0
  | .floats bits =>
    !floatIsNaN bits && decide (8796094 * 2 ^ 106 ≤ (floatScaled bits).natAbs)
  | .booleans flag => flag
  | .dates _ => false
  | .null => false

def compareInt (left right : BitVec 32) : Int :=
  if right.toInt < left.toInt then 1 else if left.toInt < right.toInt then -1 else 0

/-- `compare_string`: the bytes in order, then the lengths. -/
def compareString : List UInt8 → List UInt8 → Int
  | [], [] => 0
  | [], _ :: _ => -1
  | _ :: _, [] => 1
  | left :: lefts, right :: rights =>
    if left < right then -1 else if right < left then 1 else compareString lefts rights

/-- What `DataType::compare` answers where it is not implemented. -/
def int32Max : Int := 2 ^ 31 - 1

/-- `Value::compare` of two values that are not null. The type of the left one decides. -/
def Cell.compare : Cell → Cell → Option Int
  | .booleans left, .booleans right =>
    some (if left = right then 0 else if left then 1 else -1)
  | .chars left, .chars right => some (compareString left right)
  | .chars _, _ => none
  | .ints left, .ints right => some (compareInt left right)
  | .ints left, .floats right => some (compareFloat (floatOfInt left) right)
  | .floats left, right => some (compareFloat left (right.getFloat reading))
  | .dates left, right => some (compareInt left (right.getInt reading))
  | _, _ => some int32Max

def compResult : CompOp → Int → Bool
  | .equalTo, result => result = 0
  | .lessEqual, result => result ≤ 0
  | .notEqual, result => result ≠ 0
  | .lessThan, result => result < 0
  | .greatEqual, result => 0 ≤ result
  | .greatThan, result => 0 < result
  | .isNull, _ => false
  | .isNotNull, _ => false

/-- The types a column with an index can have; strings have a maximal length. -/
inductive ColumnType where
  | chars (length : Nat)
  | ints
  | floats
  | dates
  deriving DecidableEq, Repr

/-- `AttrComparator`: both keys are read as values of the column. -/
def attrCompare : Cell → Cell → Int
  | .chars left, .chars right => compareString left right
  | .ints left, .ints right => compareInt left right
  | .floats left, .floats right => compareFloat left right
  | .dates left, .dates right => compareInt left right
  | _, _ => int32Max

end CsuDbms.ValueModel
