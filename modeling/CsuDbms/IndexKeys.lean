import CsuDbms.KeyOrder
import CsuDbms.LittleEndian
import CsuDbms.SortedSearch

/-!
# The keys of an index

A key is the attribute of a record, as the comparator reads it, with the `RID` of the record. On
integers, dates and strings the comparator of the index is the one of a linear order. Numbers are
compared up to a tolerance; that is an order only on a set of numbers that are far enough from
each other.
-/

namespace CsuDbms.IndexKeys

open KeyOrder ValueModel IndexEntry SortedSearch KeyComparator LittleEndian List

instance : KeyComparator Entry := ⟨keyCompare⟩

/-- Numbers no two of which count as equal. Zero is one of them: the key of zero bytes stands in
front of the leftmost node of a level. -/
structure Numbers where
  has : BitVec 32 → Bool
  zero : has 0 = true
  apart : ∀ left right, has left = true → has right = true → compareFloat left right = 0 →
    left = right

inductive AttrType where
  | ints
  | dates
  | floats (numbers : Numbers)
  | chars (length : Nat)

def AttrType.Attr : AttrType → Type
  | .ints => BitVec 32
  | .dates => BitVec 32
  | .floats numbers => { bits : BitVec 32 // numbers.has bits = true }
  | .chars _ => List Byte

namespace Numbers

variable (numbers : Numbers)

theorem not_nan {bits : BitVec 32} (listed : numbers.has bits = true) :
    floatIsNaN bits = false := by
  by_contra nan
  have same := numbers.apart bits 0 listed numbers.zero (by simp [compareFloat, nan])
  rw [same] at nan
  exact nan (by decide)

theorem follows {left right : BitVec 32} (first : numbers.has left = true)
    (second : numbers.has right = true) :
    Follows (compareFloat left right) (floatScaled left) (floatScaled right) := by
  have apart := numbers.apart left right first second
  have positive : 0 < epsilonScaled := by decide
  have compared : compareFloat left right =
      if epsilonScaled ≤ floatScaled left - floatScaled right then 1
      else if floatScaled left - floatScaled right ≤ -epsilonScaled then -1 else 0 := by
    simp [compareFloat, numbers.not_nan first, numbers.not_nan second]
  by_cases same : left = right
  · subst same
    rw [compared, sub_self, if_neg (by omega), if_neg (by omega)]
    exact ⟨by simp, by simp⟩
  · have different := mt apart same
    rw [compared] at different ⊢
    split_ifs at different ⊢
    · exact ⟨by omega, by omega⟩
    · exact ⟨by omega, by omega⟩
    · exact absurd rfl different

theorem scaled_injective : Function.Injective
    fun attr : (AttrType.floats numbers).Attr => floatScaled attr.1 := by
  intro left right same
  exact Subtype.ext (numbers.apart _ _ left.2 right.2
    ((numbers.follows left.2 right.2).same.mpr same))

end Numbers

instance : (type : AttrType) → LinearOrder type.Attr
  | .ints => LinearOrder.lift' BitVec.toInt fun _ _ => BitVec.eq_of_toInt_eq
  | .dates => LinearOrder.lift' BitVec.toInt fun _ _ => BitVec.eq_of_toInt_eq
  | .floats numbers => LinearOrder.lift' _ numbers.scaled_injective
  | .chars _ => inferInstanceAs (LinearOrder (List Byte))

def octets (text : List Byte) : List UInt8 := text.map fun byte => UInt8.ofNat byte.val

/-- The value that the comparator reads. -/
def AttrType.cell : (type : AttrType) → type.Attr → Cell
  | .ints, number => .ints number
  | .dates, number => .dates number
  | .floats _, number => .floats number.1
  | .chars _, text => .chars (octets text)

theorem map_val_lt (left right : List Byte) : left.map Fin.val < right.map Fin.val ↔ left < right := by
  induction left generalizing right with
  | nil => cases right <;> simp
  | cons first left ih =>
    cases right with
    | nil => simp
    | cons second right => simp [cons_lt_cons_iff, ih, Fin.ext_iff]

theorem text_follows (left right : List Byte) :
    Follows (compareString (octets left) (octets right)) left right := by
  have values (text : List Byte) : (octets text).map UInt8.toNat = text.map Fin.val := by
    simp [octets, Function.comp_def]
  have compared := follows_string (octets left) (octets right)
  rw [values, values] at compared
  refine ⟨compared.less.trans (map_val_lt left right), compared.same.trans ?_⟩
  exact (map_injective_iff.mpr Fin.val_injective).eq_iff

theorem attr_follows (type : AttrType) (left right : type.Attr) :
    Follows (attrCompare (type.cell left) (type.cell right)) left right := by
  cases type with
  | ints | dates =>
    obtain ⟨less, same⟩ := follows_int left right
    exact ⟨less, same.trans BitVec.toInt_inj⟩
  | floats numbers =>
    obtain ⟨less, same⟩ := numbers.follows left.2 right.2
    exact ⟨less, same.trans numbers.scaled_injective.eq_iff⟩
  | chars length => exact text_follows left right

/-- `AttrComparator`. -/
def compareAttrs {type : AttrType} (left right : type.Attr) : Int :=
  attrCompare (type.cell left) (type.cell right)

@[simp] theorem compareAttrs_zero {type : AttrType} (left right : type.Attr) :
    compareAttrs left right = 0 ↔ left = right := (attr_follows type left right).same

@[simp] theorem compareAttrs_pos {type : AttrType} (left right : type.Attr) :
    0 < compareAttrs left right ↔ right < left := by
  rw [← not_le, le_iff_lt_or_eq, compareAttrs, (attr_follows type left right).less,
    (attr_follows type left right).same, ← le_iff_lt_or_eq, not_le]

abbrev RidOrder := Int ×ₗ Int

abbrev IndexKey (type : AttrType) := type.Attr ×ₗ RidOrder

def IndexKey.entry {type : AttrType} (key : IndexKey type) : Entry where
  key := type.cell (ofLex key).1
  rid := ⟨(ofLex (ofLex key).2).1, (ofLex (ofLex key).2).2⟩

theorem follows_lex {First Second : Type} [LinearOrder First] [LinearOrder Second]
    {left right : First ×ₗ Second} {first second : Int}
    (decides : Follows first (ofLex left).1 (ofLex right).1)
    (tie : Follows second (ofLex left).2 (ofLex right).2) :
    Follows (if first ≠ 0 then first else second) left right := by
  constructor
  · rw [Prod.Lex.lt_iff, ← decides.less, ← decides.same, ← tie.less]
    split <;> omega
  · rw [← ofLex.injective.eq_iff, Prod.ext_iff, ← decides.same, ← tie.same]
    split <;> omega

theorem key_follows {type : AttrType} (left right : IndexKey type) :
    Follows (keyCompare (IndexKey.entry left) (IndexKey.entry right)) left right :=
  follows_lex (attr_follows type _ _) (follows_rid (IndexKey.entry left).rid _)

instance {type : AttrType} : OrderedKeys (IndexKey type) where
  compareKeys left right := compareKeys (IndexKey.entry left) (IndexKey.entry right)
  compare_neg left right := (key_follows left right).less
  compare_zero left right := (key_follows left right).same

end CsuDbms.IndexKeys
