import Mathlib

/-!
# Arithmetic on integers

From the digits of a literal to the value of an expression over `INT` columns. The lexer
reads literals with `atoi`, and `IntegerType` computes in `int`. Nothing is checked, and a
constant node is folded by the same computation.
-/

namespace CsuDbms.IntegerArithmetic

open List

inductive ArithmeticType where
  | add
  | sub
  | mul
  deriving DecidableEq, Repr

/-- With the literals as digits in the statement, and as values once they are parsed. -/
inductive Expr (Literal : Type) where
  | value (literal : Literal)
  | field (index : Nat)
  | negative (child : Expr Literal)
  | arithmetic (type : ArithmeticType) (left right : Expr Literal)

abbrev Digits := List (Fin 10)

def decimal (digits : Digits) : Nat :=
  digits.foldl (fun number digit => 10 * number + digit) 0

/-- `strtol` stops at the largest `long`, and the rest of its bits is dropped. -/
def atoi (digits : Digits) : BitVec 32 :=
  BitVec.ofNat 32 (min (decimal digits) (2 ^ 63 - 1))

def calcValue : ArithmeticType → BitVec 32 → BitVec 32 → BitVec 32
  | .add, left, right => left + right
  | .sub, left, right => left - right
  | .mul, left, right => left * right

namespace Expr

def parsed : Expr Digits → Expr (BitVec 32)
  | value digits => value (atoi digits)
  | field index => field index
  | negative child => negative child.parsed
  | arithmetic type left right => arithmetic type left.parsed right.parsed

def getValue (row : Nat → BitVec 32) : Expr (BitVec 32) → BitVec 32
  | value number => number
  | field index => row index
  | negative child => -child.getValue row
  | arithmetic type left right => calcValue type (left.getValue row) (right.getValue row)

/-- `ArithmeticSimplificationRule::rewrite`. -/
def rewrite : Expr (BitVec 32) → Expr (BitVec 32)
  | arithmetic type (value left) (value right) => value (calcValue type left right)
  | expr => expr

/-- The number the statement denotes. -/
def exact (row : Nat → BitVec 32) : Expr Digits → Int
  | value digits => decimal digits
  | field index => (row index).toInt
  | negative child => -child.exact row
  | arithmetic .add left right => left.exact row + right.exact row
  | arithmetic .sub left right => left.exact row - right.exact row
  | arithmetic .mul left right => left.exact row * right.exact row

def parts {Literal : Type} : Expr Literal → List (Expr Literal)
  | value literal => [value literal]
  | field index => [field index]
  | negative child => negative child :: child.parts
  | arithmetic type left right => arithmetic type left right :: (left.parts ++ right.parts)

variable (row : Nat → BitVec 32)

/-- No literal and no result wraps, whether the node is folded or not. -/
def ComputesExactly (expr : Expr Digits) : Prop :=
  ∀ part ∈ expr.parts, (part.parsed.getValue row).toInt = part.exact row ∧
    (part.parsed.rewrite.getValue row).toInt = part.exact row

def FitsInt (number : Int) : Prop := -2 ^ 31 ≤ number ∧ number < 2 ^ 31

theorem get_value_rewrite (expr : Expr (BitVec 32)) :
    expr.rewrite.getValue row = expr.getValue row := by
  unfold rewrite
  split <;> rfl

theorem toInt_fits (number : BitVec 32) : FitsInt number.toInt :=
  ⟨BitVec.le_toInt number, BitVec.toInt_lt⟩

theorem bmod_of_fits {number : Int} (fits : FitsInt number) : number.bmod (2 ^ 32) = number := by
  obtain ⟨low, high⟩ := fits
  exact Int.bmod_eq_of_le_mul_two (by omega) (by omega)

theorem atoi_of_fits {digits : Digits} (fits : FitsInt (decimal digits)) :
    (atoi digits).toInt = decimal digits := by
  have high := fits.2
  rw [atoi, min_eq_left (by omega), BitVec.toInt_ofNat', bmod_of_fits fits]

/-- By induction on the expression: the operands are exact, and the result is the exact one
reduced to an `int`. -/
theorem get_value_of_fits (expr : Expr Digits)
    (fits : ∀ part ∈ expr.parts, FitsInt (part.exact row)) :
    (expr.parsed.getValue row).toInt = expr.exact row := by
  induction expr with
  | value digits => exact atoi_of_fits (fits _ mem_cons_self)
  | field index => rfl
  | negative child ih =>
    have own := fits _ mem_cons_self
    have exact := ih fun part inside => fits part (mem_cons_of_mem _ inside)
    rw [parsed, getValue, BitVec.toInt_neg, exact]
    exact bmod_of_fits own
  | arithmetic type left right leftIh rightIh =>
    have own := fits _ mem_cons_self
    have leftExact := leftIh fun part inside =>
      fits part (mem_cons_of_mem _ (mem_append_left _ inside))
    have rightExact := rightIh fun part inside =>
      fits part (mem_cons_of_mem _ (mem_append_right _ inside))
    rw [parsed, getValue]
    cases type with
    | add =>
      rw [calcValue, BitVec.toInt_add, leftExact, rightExact]
      exact bmod_of_fits own
    | sub =>
      rw [calcValue, BitVec.toInt_sub, leftExact, rightExact]
      exact bmod_of_fits own
    | mul =>
      rw [calcValue, BitVec.toInt_mul, leftExact, rightExact]
      exact bmod_of_fits own

theorem parts_trans {Literal : Type} {expr part inner : Expr Literal} (inside : part ∈ expr.parts)
    (deeper : inner ∈ part.parts) : inner ∈ expr.parts := by
  induction expr with
  | value | field =>
    rw [mem_singleton.mp inside] at deeper
    exact deeper
  | negative child ih =>
    rcases mem_cons.mp inside with rfl | inside
    · exact deeper
    · exact mem_cons_of_mem _ (ih inside)
  | arithmetic type left right leftIh rightIh =>
    rcases mem_cons.mp inside with rfl | inside
    · exact deeper
    · refine mem_cons_of_mem _ (mem_append.mpr ?_)
      exact (mem_append.mp inside).imp leftIh rightIh

/-- Everything is computed exactly just if every literal and every result is an `int`. -/
theorem computes_exactly_iff (expr : Expr Digits) :
    ComputesExactly row expr ↔ ∀ part ∈ expr.parts, FitsInt (part.exact row) := by
  constructor
  · intro exactly part inside
    rw [← (exactly part inside).1]
    exact toInt_fits _
  · intro fits part inside
    rw [get_value_rewrite]
    exact and_self_iff.mpr
      (get_value_of_fits row part fun inner deeper => fits inner (parts_trans inside deeper))

/-- `2147483647 + 1`. -/
def overflowing : Expr Digits :=
  arithmetic .add (value [2, 1, 4, 7, 4, 8, 3, 6, 4, 7]) (value [1])

theorem overflowing_wraps : overflowing.parsed.getValue (fun _ => 0) = BitVec.ofInt 32 (-2 ^ 31) ∧
    ¬ComputesExactly (fun _ => 0) overflowing := by
  refine ⟨by decide, fun exactly => ?_⟩
  have wrong := (exactly overflowing mem_cons_self).1
  exact absurd wrong (by decide)

end Expr

end CsuDbms.IntegerArithmetic
