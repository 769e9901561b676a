import CsuDbms.IndexEntry
import CsuDbms.PrefixOrder

/-!
# The order of the index keys

`KeyComparator` reads both attributes as values of the column, leaves them to
the comparison of the type, and compares the `RID`s behind them if that finds no
difference. `compare_float` takes
numbers for equal that are close to each other, and vectors and truth values
have no comparison.
-/

namespace CsuDbms.KeyOrder

open ValueModel IndexEntry

abbrev Memory := Nat → UInt8

inductive AttrType where
  | chars
  | ints
  | floats
  | vectors
  | booleans
  | dates
  deriving DecidableEq, Repr

/-- `FieldMeta::init` refuses a column without length. -/
structure Attribute where
  type : AttrType
  length : Nat
  positive : 0 < length

/-- `Value::set_data`, which knows no vectors. -/
def Attribute.setData (column : Attribute) (memory : Memory) : Option Cell :=
  match column.type with
  | .chars => some (readKey (.chars column.length) memory)
  | .ints => some (readKey .ints memory)
  | .floats => some (readKey .floats memory)
  | .vectors => none
  | .booleans => some (.booleans (readWord memory ≠ 0))
  | .dates => some (readKey .dates memory)

/-- `AttrComparator`. -/
def Attribute.compare (column : Attribute) (left right : Memory) : Int :=
  match column.setData left, column.setData right with
  | some left, some right => attrCompare left right
  | _, _ => int32Max

/-- `Value::compare` of what is read back. -/
def Attribute.compareValues (column : Attribute) (reading : TextReading)
    (left right : Memory) : Option Int :=
  match column.setData left, column.setData right with
  | some left, some right => left.compare reading right
  | _, _ => some int32Max

def Attribute.rid (column : Attribute) (memory : Memory) : Rid where
  pageNum := (readWord fun index => memory (column.length + index)).toInt
  slotNum := (readWord fun index => memory (column.length + 4 + index)).toInt

/-- The column with the `RID` of a record behind it. -/
structure StoredKey (column : Attribute) where
  memory : Memory
  page : 0 ≤ (column.rid memory).pageNum
  slot : 0 ≤ (column.rid memory).slotNum

variable {column : Attribute}

/-- `KeyComparator`. The differences of page and slot numbers do not overflow. -/
def StoredKey.compare (left right : StoredKey column) : Int :=
  if column.compare left.memory right.memory ≠ 0 then
    column.compare left.memory right.memory
  else (column.rid left.memory).compare (column.rid right.memory)

def StoredKey.Equal (left right : StoredKey column) : Prop :=
  column.setData left.memory = column.setData right.memory ∧
    column.rid left.memory = column.rid right.memory

structure TotallyOrders (column : Attribute) : Prop where
  antisymm : ∀ left right : StoredKey column,
    (left.compare right).sign = -(right.compare left).sign
  equal : ∀ left right : StoredKey column, left.compare right = 0 ↔ left.Equal right
  trans : ∀ left middle right : StoredKey column,
    left.compare middle ≤ 0 → middle.compare right ≤ 0 → left.compare right ≤ 0
  total : ∀ left right : StoredKey column, left.compare right ≤ 0 ∨ right.compare left ≤ 0

def AgreesWithValues (column : Attribute) : Prop :=
  ∀ (reading : TextReading) (left right : Memory), ∃ result,
    column.compareValues reading left right = some result ∧
      (column.compare left right).sign = result.sign

structure Follows {Rank : Type} [LinearOrder Rank] (result : Int) (left right : Rank) : Prop where
  less : result < 0 ↔ left < right
  same : result = 0 ↔ left = right

theorem follows_int (left right : BitVec 32) :
    Follows (compareInt left right) left.toInt right.toInt := by
  unfold compareInt
  constructor
  · split <;> omega
  · split <;> omega

theorem follows_string (left right : List UInt8) :
    Follows (compareString left right) (left.map UInt8.toNat) (right.map UInt8.toNat) := by
  induction left generalizing right with
  | nil => cases right <;> constructor <;> simp [compareString]
  | cons first lefts ih =>
    cases right with
    | nil => constructor <;> simp [compareString]
    | cons second rights =>
      obtain ⟨less, same⟩ := ih rights
      simp only [compareString, UInt8.lt_iff_toNat_lt, List.map_cons]
      rcases lt_trichotomy first.toNat second.toNat with before | tie | behind
      · constructor <;> simp [before, before.ne, List.cons_lt_cons_iff]
      · constructor <;> simp [tie, less, same]
      · constructor <;> simp [behind, behind.not_gt, behind.ne', List.cons_lt_cons_iff]

theorem follows_rid (left right : Rid) :
    Follows (left.compare right) (toLex (left.pageNum, left.slotNum))
      (toLex (right.pageNum, right.slotNum)) := by
  unfold Rid.compare
  constructor
  · rw [Prod.Lex.toLex_lt_toLex]
    split <;> omega
  · rw [toLex_inj, Prod.mk.injEq]
    split <;> omega

section Ranks

variable {Rank : Type} [LinearOrder Rank] {rank : Memory → Rank}
  (follows : ∀ left right, Follows (column.compare left right) (rank left) (rank right))

def keyRank (rank : Memory → Rank) (key : StoredKey column) : Rank ×ₗ (Int ×ₗ Int) :=
  toLex (rank key.memory,
    toLex ((column.rid key.memory).pageNum, (column.rid key.memory).slotNum))

include follows

theorem follows_key (left right : StoredKey column) :
    Follows (left.compare right) (keyRank rank left) (keyRank rank right) := by
  have attr := follows left.memory right.memory
  have rid := follows_rid (column.rid left.memory) (column.rid right.memory)
  unfold StoredKey.compare keyRank
  constructor
  · rw [Prod.Lex.toLex_lt_toLex, ← attr.less, ← attr.same, ← rid.less]
    split <;> omega
  · rw [toLex_inj, Prod.mk.injEq, ← attr.same, ← rid.same]
    split <;> omega

theorem totally_orders_of_rank
    (equal : ∀ left right, column.setData left = column.setData right ↔
      rank left = rank right) : TotallyOrders column := by
  have key := follows_key follows
  have nonpos : ∀ left right : StoredKey column,
      left.compare right ≤ 0 ↔ keyRank rank left ≤ keyRank rank right := by
    intro left right
    rw [le_iff_lt_or_eq, le_iff_lt_or_eq, (key left right).less, (key left right).same]
  constructor
  · intro left right
    rcases lt_trichotomy (keyRank rank left) (keyRank rank right) with before | same | behind
    · have less := (key left right).less.mpr before
      have more : 0 < right.compare left := by
        rw [← not_le, nonpos]
        exact before.not_ge
      rw [Int.sign_eq_neg_one_of_neg less, Int.sign_eq_one_of_pos more]
    · rw [(key left right).same.mpr same, (key right left).same.mpr same.symm]
      rfl
    · have less := (key right left).less.mpr behind
      have more : 0 < left.compare right := by
        rw [← not_le, nonpos]
        exact behind.not_ge
      rw [Int.sign_eq_neg_one_of_neg less, Int.sign_eq_one_of_pos more]
      rfl
  · intro left right
    rw [(key left right).same, StoredKey.Equal, equal, keyRank, keyRank, toLex_inj, Prod.mk.injEq,
      toLex_inj, Prod.mk.injEq, Rid.mk.injEq]
  · intro left middle right
    rw [nonpos, nonpos, nonpos]
    exact le_trans
  · intro left right
    rw [nonpos, nonpos]
    exact le_total _ _

end Ranks

theorem ordered_of_values {Value Rank : Type} [LinearOrder Rank] (cell : Value → Cell)
    (rank : Value → Rank) (value : Memory → Value)
    (read : ∀ memory, column.setData memory = some (cell (value memory)))
    (apart : rank.Injective) (told : cell.Injective)
    (follows : ∀ left right, Follows (attrCompare (cell left) (cell right)) (rank left)
      (rank right)) : TotallyOrders column := by
  have compared : ∀ left right,
      Follows (column.compare left right) (rank (value left)) (rank (value right)) := by
    intro left right
    rw [Attribute.compare, read, read]
    exact follows _ _
  apply totally_orders_of_rank compared
  intro left right
  rw [read, read, Option.some_inj, told.eq_iff, apart.eq_iff]

theorem agrees_with_values (kind : column.type ≠ .booleans) : AgreesWithValues column := by
  intro reading left right
  cases type : column.type <;>
    simp_all [Attribute.compare, Attribute.compareValues, Attribute.setData, readKey, attrCompare,
      Cell.compare, Cell.getFloat, Cell.getInt]

theorem read_word_shifted (word : BitVec 32) {shift : Nat} (positive : 0 < shift) :
    (readWord fun index => wordByte word (shift + index)).toInt =
      (word.toNat / 256 ^ shift : Nat) := by
  have small : word.toNat / 256 ^ shift < 2 ^ 24 := by
    have large : 256 ^ 1 ≤ 256 ^ shift := Nat.pow_le_pow_right (by decide) positive
    exact (Nat.div_le_div_left large (by decide)).trans_lt (by omega)
  have number : (readWord fun index => wordByte word (shift + index)).toNat =
      word.toNat / 256 ^ shift := by
    simp only [readWord, wordByte, Nat.pow_add, ← Nat.div_div_eq_div_mul, UInt8.toNat_ofNat',
      BitVec.toNat_ofNat]
    generalize word.toNat / 256 ^ shift = rest at small ⊢
    norm_num
    omega
  rw [BitVec.toInt_eq_toNat_of_lt (by omega), number]

def wordKey (column : Attribute) (word : BitVec 32) : StoredKey column where
  memory := wordByte word
  page := by
    rw [Attribute.rid, read_word_shifted word column.positive]
    exact Int.natCast_nonneg _
  slot := by
    rw [Attribute.rid, read_word_shifted word (Nat.add_pos_right _ (by decide))]
    exact Int.natCast_nonneg _

/-- Attributes that are shorter than their words share bytes with the `RID`. -/
theorem wordKey_compare_nonpos (left right : BitVec 32) (le : left.toNat ≤ right.toNat)
    (tie : column.compare (wordByte left) (wordByte right) = 0) :
    (wordKey column left).compare (wordKey column right) ≤ 0 := by
  have page := Nat.div_le_div_right (c := 256 ^ column.length) le
  have slot := Nat.div_le_div_right (c := 256 ^ (column.length + 4)) le
  have behind := Nat.add_pos_right column.length (by decide : 0 < 4)
  simp only [StoredKey.compare, wordKey, tie, Rid.compare, Attribute.rid,
    read_word_shifted _ column.positive, read_word_shifted _ behind]
  split <;> omega

theorem floats_unordered (kind : column.type = .floats) : ¬TotallyOrders column := by
  have compared (left right : BitVec 32) (left' : readWord (wordByte left) = left)
      (right' : readWord (wordByte right) = right) :
      column.compare (wordByte left) (wordByte right) = compareFloat left right := by
    simp only [Attribute.compare, Attribute.setData, kind, readKey, attrCompare, left', right']
  intro ordered
  have first := wordKey_compare_nonpos 0xB4800000 0xB5800000 (by decide)
    ((compared _ _ (by decide) (by decide)).trans (by decide +kernel))
  have second := wordKey_compare_nonpos 0xB5800000 0xB5C00000 (by decide)
    ((compared _ _ (by decide) (by decide)).trans (by decide +kernel))
  have third := ordered.trans _ _ _ first second
  have apart : column.compare (wordByte 0xB4800000) (wordByte 0xB5C00000) = 1 :=
    (compared _ _ (by decide) (by decide)).trans (by decide +kernel)
  simp only [StoredKey.compare, wordKey, apart] at third
  split at third <;> omega

theorem uncompared_unordered (same : ∀ left right, column.compare left right = int32Max) :
    ¬TotallyOrders column := by
  intro ordered
  have own : (wordKey column 0).compare (wordKey column 0) = int32Max := by
    rw [StoredKey.compare, same]
    rfl
  have sign := ordered.antisymm (wordKey column 0) (wordKey column 0)
  rw [own] at sign
  exact absurd sign (by decide)

/-- The keys of a column are totally ordered, as the values read back from them are, just
for strings, integers and dates. -/
theorem keys_ordered_iff (column : Attribute) :
    TotallyOrders column ∧ AgreesWithValues column ↔
      column.type = .chars ∨ column.type = .ints ∨ column.type = .dates := by
  constructor
  · rintro ⟨ordered, _⟩
    cases kind : column.type with
    | chars | ints | dates => simp
    | floats => exact absurd ordered (floats_unordered kind)
    | vectors | booleans =>
      refine absurd ordered (uncompared_unordered fun left right => ?_)
      simp [Attribute.compare, Attribute.setData, kind, attrCompare]
  · intro kinds
    refine ⟨?_, agrees_with_values (by rcases kinds with kind | kind | kind <;> simp [kind])⟩
    rcases kinds with kind | kind | kind
    · apply ordered_of_values .chars (List.map UInt8.toNat)
        (fun memory => ((List.range column.length).map memory).takeWhile (· ≠ 0))
      · simp [Attribute.setData, kind, readKey]
      · exact List.map_injective_iff.mpr fun _ _ => UInt8.toNat.inj
      · exact fun _ _ => Cell.chars.inj
      · exact follows_string
    · apply ordered_of_values .ints BitVec.toInt readWord
      · simp [Attribute.setData, kind, readKey]
      · exact fun _ _ => BitVec.eq_of_toInt_eq
      · exact fun _ _ => Cell.ints.inj
      · exact follows_int
    · apply ordered_of_values .dates BitVec.toInt readWord
      · simp [Attribute.setData, kind, readKey]
      · exact fun _ _ => BitVec.eq_of_toInt_eq
      · exact fun _ _ => Cell.dates.inj
      · exact follows_int

/-- -2⁻²² and -2⁻²⁰ count as equal, and so do -2⁻²⁰ and -1.5 · 2⁻²⁰, but the first is
larger than the last. -/
theorem float_keys_not_transitive :
    ¬(TotallyOrders ⟨.floats, 4, by decide⟩ ∧ AgreesWithValues ⟨.floats, 4, by decide⟩) := by
  rintro ⟨ordered, _⟩
  exact floats_unordered rfl ordered

end CsuDbms.KeyOrder
