import CsuDbms.BplusTreeScanner
import CsuDbms.IndexKeys

/-!
# The range of an index scan

`BplusTreeScanner::open` with the keys of its caller. A key of a string column may be
shorter or longer than the column and is made to fit by `fix_user_key`. The types are
those whose comparison is an order; single precision numbers are taken from a set in which
no two count as equal.
-/

namespace CsuDbms.ScanRange

open BufferPoolHeaderModel BplusTreeModel IndexKeys LittleEndian PrefixOrder List Option Function

abbrev Memory := Nat → Byte

def bytesAt (memory : Memory) (count : Nat) : List Byte := (List.range count).map memory

def readWord (memory : Memory) : BitVec 32 := BitVec.ofNat 32 (decodeNat (bytesAt memory 4))

/-- `Value::set_data`, which ends a string at its first zero byte. Only numbers of the set are
read. -/
def readAttr : (type : AttrType) → Memory → type.Attr
  | .ints, memory => readWord memory
  | .dates, memory => readWord memory
  | .floats numbers, memory =>
    if listed : numbers.has (readWord memory) = true then ⟨readWord memory, listed⟩
    else ⟨0, numbers.zero⟩
  | .chars length, memory => (bytesAt memory length).takeWhile (· ≠ 0)

/-- A key of the caller, with its length and whether it belongs to the range. -/
structure UserKey where
  memory : Memory
  length : Nat
  inclusive : Bool

/-- `fix_user_key`: the key as it would be stored, and whether it is now in the range. -/
def fixUserKey (attrLength : Nat) (key : UserKey) (wantGreater : Bool) : Memory × Bool :=
  if key.length ≤ attrLength then
    (fun index => if index < key.length then key.memory index else 0, false)
  else if key.memory attrLength = 0 then (key.memory, false)
  else if wantGreater then
    (update key.memory (attrLength - 1) (key.memory (attrLength - 1) + 1), true)
  else (key.memory, true)

/-- The attribute that `open` makes of a key, and whether it is in the range. -/
def bound (wantGreater : Bool) (key : UserKey) : (type : AttrType) → type.Attr × Bool
  | .ints => (readAttr .ints key.memory, key.inclusive)
  | .dates => (readAttr .dates key.memory, key.inclusive)
  | .floats numbers => (readAttr (.floats numbers) key.memory, key.inclusive)
  | .chars length =>
    let fixed := fixUserKey length key wantGreater
    (readAttr (.chars length) fixed.1, key.inclusive || fixed.2)

def ridMin : RidOrder := toLex (0, 0)

def ridMax : RidOrder := toLex (2 ^ 31 - 1, 2 ^ 31 - 1)

variable {type : AttrType}

def leftKey (type : AttrType) (key : UserKey) : IndexKey type :=
  toLex ((bound true key type).1, if (bound true key type).2 then ridMin else ridMax)

def rightKey (type : AttrType) (key : UserKey) : IndexKey type :=
  toLex ((bound false key type).1, if (bound false key type).2 then ridMax else ridMin)

/-- The check of the two keys, on as many bytes as the column has. -/
def rejects (type : AttrType) : Option UserKey → Option UserKey → Bool
  | some left, some right =>
    0 < compareAttrs (readAttr type left.memory) (readAttr type right.memory) ∨
      compareAttrs (readAttr type left.memory) (readAttr type right.memory) = 0 ∧
        (left.inclusive = false ∨ right.inclusive = false)
  | _, _ => false

def rangeScan (tree : Tree (IndexKey type) RidOrder) (calls : Nat) (left right : Option UserKey) :
    Except RC (List RidOrder) :=
  if rejects type left right then .error .invalidArgument
  else tree.scan (fun _ => false) calls (left.map (leftKey type)) (right.map (rightKey type))

/-- What a key stands for: a string is itself, however long it is. -/
def UserKey.value (key : UserKey) : (type : AttrType) → type.Attr
  | .ints => readAttr .ints key.memory
  | .dates => readAttr .dates key.memory
  | .floats numbers => readAttr (.floats numbers) key.memory
  | .chars _ => bytesAt key.memory key.length

def afterLeft (type : AttrType) (key : UserKey) (attr : type.Attr) : Bool :=
  if key.inclusive then key.value type ≤ attr else key.value type < attr

def beforeRight (type : AttrType) (key : UserKey) (attr : type.Attr) : Bool :=
  if key.inclusive then attr ≤ key.value type else attr < key.value type

def inRange (type : AttrType) (left right : Option UserKey) (attr : type.Attr) : Bool :=
  left.all (afterLeft type · attr) && right.all (beforeRight type · attr)

/-- A key of a string column is a string, without a zero byte and with one behind it, and a number
is one of the set. -/
def UserKey.Proper (key : UserKey) : AttrType → Prop
  | .chars _ => (∀ index < key.length, key.memory index ≠ 0) ∧ key.memory key.length = 0
  | .floats numbers => numbers.has (readWord key.memory) = true
  | _ => True

def Storable : (type : AttrType) → type.Attr → Prop
  | .chars length, attr => List.length (attr : List Byte) ≤ length
  | _, _ => True

variable {key : UserKey} {length : Nat}

section Texts

theorem length_bytesAt (memory : Memory) (count : Nat) : (bytesAt memory count).length = count := by
  simp [bytesAt]

theorem bytesAt_add (memory : Memory) (count more : Nat) :
    bytesAt memory (count + more) =
      bytesAt memory count ++ bytesAt (fun index => memory (count + index)) more := by
  simp [bytesAt, range_add, comp_def]

variable {memory : Memory} {count : Nat}

theorem takeWhile_bytesAt (text : ∀ index < count, memory index ≠ 0) :
    (bytesAt memory count).takeWhile (· ≠ 0) = bytesAt memory count := by
  rw [takeWhile_eq_self_iff]
  intro byte member
  obtain ⟨index, bound, rfl⟩ := mem_map.mp member
  simpa using text index (mem_range.mp bound)

theorem bytesAt_succ (memory : Memory) (count : Nat) :
    bytesAt memory (count + 1) = bytesAt memory count ++ [memory count] := by
  simp [bytesAt, range_succ]

theorem bytesAt_congr {other : Memory} (same : ∀ index < count, other index = memory index) :
    bytesAt other count = bytesAt memory count :=
  map_congr_left fun index member => same index (mem_range.mp member)

theorem read_short (text : ∀ index < count, memory index ≠ 0) (ends : memory count = 0)
    (short : count ≤ length) :
    readAttr (.chars length) memory = bytesAt memory count := by
  obtain ⟨rest, rfl⟩ := Nat.exists_eq_add_of_le short
  change (bytesAt memory (count + rest)).takeWhile _ = _
  rw [bytesAt_add, takeWhile_append, takeWhile_bytesAt text, if_pos rfl]
  cases rest with
  | zero => simp [bytesAt]
  | succ rest => simp [bytesAt, range_succ_eq_map, ends]

theorem read_long (text : ∀ index < length, memory index ≠ 0) :
    readAttr (.chars length) memory = bytesAt memory length := takeWhile_bytesAt text

theorem value_long (long : length < key.length) :
    ∃ back, back ≠ [] ∧ bytesAt key.memory key.length = bytesAt key.memory length ++ back := by
  obtain ⟨more, same⟩ := Nat.exists_eq_add_of_lt long
  refine ⟨bytesAt (fun index => key.memory (length + index)) (more + 1), ?_, ?_⟩
  · exact ne_nil_of_length_pos (by rw [length_bytesAt]; omega)
  · rw [same, Nat.add_assoc, bytesAt_add]

theorem byte_follows {byte : Byte} (room : byte ≠ 255) :
    byte + 1 ≠ 0 ∧ ∀ other, byte < other ↔ byte + 1 ≤ other := by
  have value : (byte + 1).val = (byte.val + 1) % 256 := rfl
  have small := byte.isLt
  have less : byte.val ≠ 255 := fun same => room (Fin.ext same)
  constructor
  · intro zero
    have none : (byte + 1).val = 0 := congrArg Fin.val zero
    omega
  · intro other
    rw [Fin.lt_def, Fin.le_def, value]
    omega

theorem bound_short (wantGreater : Bool) (text : key.Proper (.chars length))
    (short : key.length ≤ length) :
    bound wantGreater key (.chars length) = (key.value (.chars length), key.inclusive) := by
  have fixed : fixUserKey length key wantGreater =
      (fun index => if index < key.length then key.memory index else 0, false) := if_pos short
  have same : bytesAt (fun index => if index < key.length then key.memory index else 0) key.length =
      bytesAt key.memory key.length := bytesAt_congr fun index less => if_pos less
  have read : readAttr (.chars length)
      (fun index => if index < key.length then key.memory index else 0) = _ :=
    read_short (fun index less => by simpa [less] using text.1 index less) (by simp) short
  simp only [bound, fixed, read, same, Bool.or_false, UserKey.value]

theorem bound_right_long (text : key.Proper (.chars length)) (long : length < key.length) :
    bound false key (.chars length) = (bytesAt key.memory length, true) := by
  have some : ¬key.memory length = 0 := text.1 length long
  have fixed : fixUserKey length key false = (key.memory, true) := by
    simp [fixUserKey, Nat.not_le.mpr long, some]
  have read := read_long fun index less => text.1 index (less.trans long)
  simp only [bound, fixed, read, Bool.or_true]
  rfl

theorem bound_left_long (text : key.Proper (.chars (length + 1))) (long : length + 1 < key.length) :
    bound true key (.chars (length + 1)) =
      (if key.memory length = 255 then bytesAt key.memory length
        else bytesAt key.memory length ++ [key.memory length + 1], true) := by
  have some : ¬key.memory (length + 1) = 0 := text.1 (length + 1) long
  have fixed : fixUserKey (length + 1) key true =
      (update key.memory length (key.memory length + 1), true) := by
    simp [fixUserKey, Nat.not_le.mpr long, some]
  have before : ∀ index < length,
      update key.memory length (key.memory length + 1) index = key.memory index :=
    fun index less => update_of_ne less.ne _ _
  have kept : ∀ index < length,
      update key.memory length (key.memory length + 1) index ≠ 0 := by
    intro index less
    rw [before index less]
    exact text.1 index (by omega)
  have last : update key.memory length (key.memory length + 1) length =
      key.memory length + 1 := update_self ..
  simp only [bound, fixed, Bool.or_true]
  split
  · rename_i full
    have ends : update key.memory length (key.memory length + 1) length = 0 := by
      rw [last, full]
      rfl
    rw [read_short kept ends (Nat.le_succ length), bytesAt_congr before]
    rfl
  · rename_i room
    have more := (byte_follows room).1
    rw [read_long (by
      intro index less
      rcases Nat.lt_succ_iff_lt_or_eq.mp less with earlier | rfl
      · exact kept index earlier
      · rwa [last]), bytesAt_succ, bytesAt_congr before, last]
    rfl

end Texts

section Bounds

variable {left right : UserKey} {attr : type.Attr} {rid : RidOrder}

theorem leftKey_le (above : ridMin < rid) (below : rid < ridMax) :
    leftKey type key ≤ toLex (attr, rid) ↔
      if (bound true key type).2 then (bound true key type).1 ≤ attr
      else (bound true key type).1 < attr := by
  rw [leftKey, Prod.Lex.le_iff]
  cases (bound true key type).2 with
  | true => simp [le_iff_lt_or_eq, above]
  | false => simp [not_le.mpr below]

theorem le_rightKey (above : ridMin < rid) (below : rid < ridMax) :
    toLex (attr, rid) ≤ rightKey type key ↔
      if (bound false key type).2 then attr ≤ (bound false key type).1
      else attr < (bound false key type).1 := by
  rw [rightKey, Prod.Lex.le_iff]
  cases (bound false key type).2 with
  | true => simp [le_iff_lt_or_eq, below]
  | false => simp [not_le.mpr above]

def TooLong (key : UserKey) : AttrType → Bool
  | .chars length => length < key.length
  | _ => false

/-- The key is too long and its last byte that counts cannot be raised. -/
def Unraisable (key : UserKey) : AttrType → Bool
  | .chars length => length < key.length ∧ key.memory (length - 1) = 255
  | _ => false

/-- The right key is too long, and without what is too much it is the left key. -/
def CutsOff (type : AttrType) (left right : UserKey) : Bool :=
  left.inclusive && !right.inclusive && !TooLong left type && TooLong right type &&
    readAttr type left.memory = readAttr type right.memory

def Sized : AttrType → Prop
  | .chars length => 0 < length
  | _ => True

theorem afterLeft_iff : afterLeft type key attr = true ↔
    if key.inclusive then key.value type ≤ attr else key.value type < attr := by
  rw [afterLeft]
  split <;> exact decide_eq_true_iff

theorem beforeRight_iff : beforeRight type key attr = true ↔
    if key.inclusive then attr ≤ key.value type else attr < key.value type := by
  rw [beforeRight]
  split <;> exact decide_eq_true_iff

theorem value_long_lt (long : length < key.length) {word : List Byte} (fits : word.length ≤ length) :
    (word < bytesAt key.memory key.length ↔ word ≤ bytesAt key.memory length) ∧
      (word ≤ bytesAt key.memory key.length ↔ word ≤ bytesAt key.memory length) := by
  obtain ⟨back, more, whole⟩ := value_long long
  rw [← length_bytesAt key.memory length] at fits
  rw [whole]
  exact ⟨lt_append_iff fits more, le_append_iff fits back⟩

theorem lt_value_long (long : length < key.length) {word : List Byte} (fits : word.length ≤ length) :
    (bytesAt key.memory length < word ↔ bytesAt key.memory key.length < word) ∧
      (bytesAt key.memory length < word ↔ bytesAt key.memory key.length ≤ word) := by
  obtain ⟨under, upTo⟩ := value_long_lt long fits
  constructor
  · rw [← not_le, ← not_le, upTo]
  · rw [← not_le, ← under, not_lt]

theorem bound_right (text : key.Proper type) (storable : Storable type attr) :
    (if (bound false key type).2 then attr ≤ (bound false key type).1
      else attr < (bound false key type).1) ↔ beforeRight type key attr = true := by
  rw [beforeRight_iff]
  cases type with
  | ints | dates | floats => rfl
  | chars length =>
    rcases Nat.lt_or_ge length key.length with long | short
    · obtain ⟨under, upTo⟩ := value_long_lt long storable
      rw [bound_right_long text long, if_pos rfl]
      split
      · exact upTo.symm
      · exact under.symm
    · rw [bound_short false text short]

theorem bound_left (sized : Sized type) (text : key.Proper type) (storable : Storable type attr)
    (raisable : Unraisable key type = false) :
    (if (bound true key type).2 then (bound true key type).1 ≤ attr
      else (bound true key type).1 < attr) ↔ afterLeft type key attr = true := by
  rw [afterLeft_iff]
  cases type with
  | ints | dates | floats => rfl
  | chars length =>
    rcases Nat.lt_or_ge length key.length with long | short
    · obtain ⟨larger, since⟩ := lt_value_long long storable
      obtain ⟨length, rfl⟩ : ∃ less, length = less + 1 :=
        ⟨length - 1, (Nat.sub_add_cancel sized).symm⟩
      have room : key.memory length ≠ 255 := by
        simpa [Unraisable, long] using raisable
      have next : bytesAt key.memory length ++ [key.memory length + 1] ≤ attr ↔
          bytesAt key.memory (length + 1) < attr := by
        rw [bytesAt_succ]
        refine append_next_le_iff (byte_follows room).2 ?_
        rw [length_bytesAt]
        exact storable
      rw [bound_left_long text long, if_pos rfl, if_neg room]
      refine next.trans ?_
      split
      · exact since
      · exact larger
    · rw [bound_short true text short]

theorem read_le_of_afterLeft (text : key.Proper type) (storable : Storable type attr)
    (after : afterLeft type key attr = true) :
    readAttr type key.memory ≤ attr ∧
      (readAttr type key.memory = attr → key.inclusive = true ∧ TooLong key type = false) := by
  rw [afterLeft_iff] at after
  have plain : readAttr type key.memory = key.value type → TooLong key type = false →
      readAttr type key.memory ≤ attr ∧
        (readAttr type key.memory = attr → key.inclusive = true ∧ TooLong key type = false) := by
    intro same short
    rw [same]
    split at after
    · rename_i inclusive
      exact ⟨after, fun _ => ⟨inclusive, short⟩⟩
    · exact ⟨after.le, fun equal => absurd equal after.ne⟩
  cases type with
  | ints | dates | floats => exact plain rfl rfl
  | chars length =>
    rcases Nat.lt_or_ge length key.length with long | short
    · have read := read_long fun index less => text.1 index (less.trans long)
      obtain ⟨larger, since⟩ := lt_value_long long storable
      have less : readAttr (.chars length) key.memory < attr := by
        rw [read]
        split at after
        · exact since.mpr after
        · exact larger.mpr after
      exact ⟨less.le, fun equal => absurd equal less.ne⟩
    · exact plain (read_short text.1 text.2 short) (decide_eq_false (Nat.not_lt.mpr short))

theorem le_read_of_beforeRight (text : key.Proper type) (storable : Storable type attr)
    (before : beforeRight type key attr = true) :
    attr ≤ readAttr type key.memory ∧
      (attr = readAttr type key.memory → key.inclusive = true ∨ TooLong key type = true) := by
  rw [beforeRight_iff] at before
  have plain : readAttr type key.memory = key.value type →
      attr ≤ readAttr type key.memory ∧
        (attr = readAttr type key.memory → key.inclusive = true ∨ TooLong key type = true) := by
    intro same
    rw [same]
    split at before
    · rename_i inclusive
      exact ⟨before, fun _ => .inl inclusive⟩
    · exact ⟨before.le, fun equal => absurd equal before.ne⟩
  cases type with
  | ints | dates | floats => exact plain rfl
  | chars length =>
    rcases Nat.lt_or_ge length key.length with long | short
    · have read := read_long fun index less => text.1 index (less.trans long)
      obtain ⟨under, upTo⟩ := value_long_lt long storable
      refine ⟨?_, fun _ => .inr (decide_eq_true long)⟩
      rw [read]
      split at before
      · exact upTo.mp before
      · exact under.mp before
    · exact plain (read_short text.1 text.2 short)

theorem rejects_iff : rejects type (some left) (some right) = true ↔
    readAttr type right.memory < readAttr type left.memory ∨
      readAttr type left.memory = readAttr type right.memory ∧
        (left.inclusive = false ∨ right.inclusive = false) := by
  simp [rejects]

theorem rejected_empty (rejected : rejects type (some left) (some right) = true)
    (leftText : left.Proper type) (rightText : right.Proper type)
    (storable : Storable type attr) (inside : CutsOff type left right = false) :
    inRange type (some left) (some right) attr = false := by
  by_contra held
  rw [Bool.not_eq_false, inRange, Bool.and_eq_true] at held
  obtain ⟨low, atLow⟩ := read_le_of_afterLeft leftText storable held.1
  obtain ⟨high, atHigh⟩ := le_read_of_beforeRight rightText storable held.2
  rw [rejects_iff] at rejected
  rcases rejected with crossed | ⟨same, excludes⟩
  · exact absurd (low.trans high) (not_le.mpr crossed)
  · have equal : attr = readAttr type left.memory := le_antisymm (same ▸ high) low
    obtain ⟨closed, short⟩ := atLow equal.symm
    have rightOpen : right.inclusive = false := by simpa [closed] using excludes
    have long : TooLong right type = true := by
      simpa [rightOpen] using atHigh (equal.trans same)
    simp [CutsOff, closed, rightOpen, short, long, same] at inside

end Bounds

abbrev Entries (type : AttrType) := List (IndexKey type × RidOrder)

/-- The entries are those of records: their attributes fit the column, and no record is where
the keys of a scan are put. -/
def OfRecords (entries : Entries type) : Prop :=
  ∀ entry ∈ entries, Storable type (ofLex entry.1).1 ∧
    ridMin < (ofLex entry.1).2 ∧ (ofLex entry.1).2 < ridMax

def wanted (left right : Option UserKey) (entries : Entries type) : Entries type :=
  entries.filter fun entry => inRange type left right (ofLex entry.1).1

/-- A scan returns the entries of the range in their order, or it is refused because of an
empty range. -/
def Yields (tree : Tree (IndexKey type) RidOrder) (entries : Entries type) (calls : Nat)
    (left right : Option UserKey) : Prop :=
  rangeScan tree calls left right = .ok ((wanted left right entries).map Prod.snd) ∨
    rangeScan tree calls left right = .error .invalidArgument ∧ wanted left right entries = []

def KeysFit (type : AttrType) (left right : Option UserKey) : Prop :=
  (∀ key ∈ left, Unraisable key type = true → rejects type left right = true) ∧
    ∀ low ∈ left, ∀ high ∈ right, CutsOff type low high = false

section Range

variable {config : Config (IndexKey type)} {tree : Tree (IndexKey type) RidOrder}
  {entries : Entries type} {calls : Nat} {left right : Option UserKey}

theorem between_keys {entry : IndexKey type × RidOrder} (sized : Sized type)
    (leftText : ∀ key ∈ left, key.Proper type) (rightText : ∀ key ∈ right, key.Proper type)
    (raisable : ∀ key ∈ left, Unraisable key type = false)
    (storable : Storable type (ofLex entry.1).1) (above : ridMin < (ofLex entry.1).2)
    (below : (ofLex entry.1).2 < ridMax) :
    (within (right.map (rightKey type)) entry && notBelow (left.map (leftKey type)) entry.1) =
      inRange type left right (ofLex entry.1).1 := by
  have high : within (right.map (rightKey type)) entry =
      right.all (beforeRight type · (ofLex entry.1).1) := by
    cases right with
    | none => rfl
    | some key =>
      have ends := (le_rightKey above below).trans (bound_right (rightText key rfl) storable)
      rw [Bool.eq_iff_iff, all_some, ← ends]
      simp [within, beyond]
  have low : notBelow (left.map (leftKey type)) entry.1 =
      left.all (afterLeft type · (ofLex entry.1).1) := by
    cases left with
    | none => rfl
    | some key =>
      have starts := (leftKey_le above below).trans
        (bound_left sized (leftText key rfl) storable (raisable key rfl))
      rw [Bool.eq_iff_iff, all_some, ← starts]
      simp [notBelow]
  rw [high, low, inRange, Bool.and_comm]

theorem yields_of_keysFit (fit : KeysFit type left right) (sized : Sized type)
    (leftText : ∀ key ∈ left, key.Proper type) (rightText : ∀ key ∈ right, key.Proper type)
    (valid : tree.Valid config entries) (records : OfRecords entries)
    (enough : 2 * entries.length < calls) : Yields tree entries calls left right := by
  cases refused : rejects type left right with
  | true =>
    refine .inr ⟨if_pos refused, filter_eq_nil_iff.mpr fun entry member => ?_⟩
    cases left with
    | none => cases refused
    | some low =>
      cases right with
      | none => cases refused
      | some high =>
        rw [rejected_empty refused (leftText low rfl) (rightText high rfl)
          (records entry member).1 (fit.2 low rfl high rfl)]
        exact Bool.false_ne_true
  | false =>
    refine .inl ((if_neg (by simp [refused])).trans ?_)
    have raisable : ∀ key ∈ left, Unraisable key type = false := by
      intro key member
      by_contra full
      have rejected := fit.1 key member (Bool.not_eq_false _ ▸ full)
      rw [refused] at rejected
      cases rejected
    rw [scan_filter valid _ _ enough, wanted]
    congr 2
    refine filter_congr fun entry member => ?_
    obtain ⟨storable, above, below⟩ := records entry member
    exact between_keys sized leftText rightText raisable storable above below

theorem exists_tree (key : IndexKey type) (rid : RidOrder) :
    ∃ (config : Config (IndexKey type)) (tree : Tree (IndexKey type) RidOrder),
      tree.Valid config [(key, rid)] := by
  let tree : Tree (IndexKey type) RidOrder :=
    ⟨⟨3, 3, fun _ => true⟩, some 2, fun _ => ⟨none, .leaf none [(key, rid)]⟩⟩
  refine ⟨⟨4, 4, key⟩, tree, .inr ⟨[⟨key, 2, [(key, rid)]⟩], [], 2, ⟨⟨?_, ?_, ?_⟩, ?_, ?_⟩, rfl⟩⟩
  · refine ⟨rfl, .nil, ?_, rfl, rfl, nodup_singleton 2, ?_, ?_⟩
    · exact fun level none => by cases none
    · intro page member
      rw [mem_singleton.mp member]
      rfl
    · exact fun page _ none => by cases none
  · exact ⟨rfl, trivial⟩
  · exact ⟨by simp [Leaf.keys], by simp, pairwise_singleton _ _⟩
  · intro leaf member
    rw [mem_singleton.mp member]
    exact ⟨by simp, by simp, fun other => absurd rfl other⟩
  · exact fun level none => by cases none

theorem storable_read (memory : Memory) : Storable type (readAttr type memory) := by
  cases type with
  | ints | dates | floats => trivial
  | chars length =>
    have few := (takeWhile_sublist (· ≠ 0) (l := bytesAt memory length)).length_le
    rwa [length_bytesAt] at few

theorem bound_right_read (text : key.Proper type) :
    (bound false key type).1 = readAttr type key.memory := by
  cases type with
  | ints | dates | floats => rfl
  | chars length =>
    rcases Nat.lt_or_ge length key.length with long | short
    · rw [bound_right_long text long]
      exact (read_long fun index less => text.1 index (less.trans long)).symm
    · rw [bound_short false text short]
      exact (read_short text.1 text.2 short).symm

def someRid : RidOrder := toLex (1, 0)

theorem someRid_between : ridMin < someRid ∧ someRid < ridMax := by decide

theorem bound_unraisable (sized : Sized type) (text : key.Proper type)
    (full : Unraisable key type = true) :
    Storable type (bound true key type).1 ∧ (bound true key type).2 = true ∧
      (bound true key type).1 < readAttr type key.memory := by
  cases type with
  | ints | dates | floats => cases full
  | chars length =>
    obtain ⟨length, rfl⟩ : ∃ less, length = less + 1 :=
      ⟨length - 1, (Nat.sub_add_cancel sized).symm⟩
    obtain ⟨long, last⟩ := decide_eq_true_iff.mp full
    rw [Nat.add_sub_cancel] at last
    have shorter : bytesAt key.memory length < bytesAt key.memory (length + 1) := by
      rw [bytesAt_succ]
      exact (lt_append_iff (le_refl _) (cons_ne_nil _ _)).mpr (le_refl _)
    rw [bound_left_long text long, if_pos last,
      read_long fun index less => text.1 index (less.trans long)]
    refine ⟨?_, rfl, shorter⟩
    change (bytesAt key.memory length).length ≤ length + 1
    rw [length_bytesAt]
    exact Nat.le_succ length

theorem scan_unraisable (sized : Sized type) (text : key.Proper type)
    (rightText : ∀ key ∈ right, key.Proper type) (full : Unraisable key type = true)
    (accepted : rejects type (some key) right = false)
    (valid : tree.Valid config [(toLex ((bound true key type).1, someRid), someRid)])
    (enough : 2 < calls) :
    ¬Yields tree [(toLex ((bound true key type).1, someRid), someRid)] calls (some key) right := by
  obtain ⟨storable, closed, lower⟩ := bound_unraisable sized text full
  have low : notBelow (some (leftKey type key)) (toLex ((bound true key type).1, someRid)) = true := by
    have above : leftKey type key ≤ toLex ((bound true key type).1, someRid) := by
      rw [leftKey_le someRid_between.1 someRid_between.2, if_pos closed]
    simpa [notBelow] using above
  have high : within (right.map (rightKey type))
      (toLex ((bound true key type).1, someRid), someRid) = true := by
    cases right with
    | none => rfl
    | some other =>
      have ordered : readAttr type key.memory ≤ readAttr type other.memory := by
        rw [← Bool.not_eq_true, rejects_iff, not_or] at accepted
        exact not_lt.mp accepted.1
      have under : toLex ((bound true key type).1, someRid) ≤ rightKey type other := by
        rw [le_rightKey someRid_between.1 someRid_between.2,
          bound_right_read (rightText other rfl)]
        split
        · exact (lower.trans_le ordered).le
        · exact lower.trans_le ordered
      simpa [within, beyond] using under
  have outside : inRange type (some key) right (bound true key type).1 = false := by
    by_contra held
    rw [Bool.not_eq_false, inRange, Bool.and_eq_true] at held
    exact absurd lower (not_lt.mpr (read_le_of_afterLeft text storable held.1).1)
  have scanned : rangeScan tree calls (some key) right = .ok [someRid] := by
    rw [rangeScan, accepted, if_neg Bool.false_ne_true, scan_filter valid _ _ enough]
    simp [low, high]
  rintro (returned | ⟨refused, -⟩)
  · rw [scanned, wanted, filter_cons_of_neg (by simp [outside])] at returned
    cases returned
  · rw [scanned] at refused
    cases refused

theorem scan_cutsOff {low high : UserKey} (leftText : low.Proper type)
    (rightText : high.Proper type) (cut : CutsOff type low high = true)
    {rid : RidOrder} :
    ¬Yields tree [(toLex (readAttr type low.memory, rid), rid)] calls (some low) (some high) := by
  simp only [CutsOff, Bool.and_eq_true, Bool.not_eq_true', decide_eq_true_eq] at cut
  obtain ⟨⟨⟨⟨closed, rightOpen⟩, short⟩, long⟩, same⟩ := cut
  have refused : rejects type (some low) (some high) = true :=
    rejects_iff.mpr (.inr ⟨same, .inr rightOpen⟩)
  have after : afterLeft type low (readAttr type low.memory) = true := by
    rw [afterLeft_iff, if_pos closed]
    cases type with
    | ints | dates | floats => exact le_refl _
    | chars length =>
      rw [read_short leftText.1 leftText.2 (Nat.not_lt.mp (of_decide_eq_false short))]
      exact le_refl _
  have before : beforeRight type high (readAttr type low.memory) = true := by
    rw [beforeRight_iff, if_neg (by simp [rightOpen]), same]
    cases type with
    | ints | dates | floats => cases long
    | chars length =>
      have longer := of_decide_eq_true long
      rw [read_long fun index less => rightText.1 index (less.trans longer)]
      exact (value_long_lt longer (length_bytesAt _ _).le).1.mpr (le_refl _)
  have inside : inRange type (some low) (some high) (readAttr type low.memory) = true := by
    rw [inRange, all_some, all_some, after, before, Bool.and_true]
  rintro (returned | ⟨-, none⟩)
  · rw [rangeScan, if_pos refused] at returned
    cases returned
  · rw [wanted, filter_cons_of_pos (by simp [inside])] at none
    cases none

theorem ofRecords_single {attr : type.Attr} (storable : Storable type attr) :
    OfRecords [((toLex (attr, someRid) : IndexKey type), someRid)] := by
  intro entry member
  rw [mem_singleton.mp member]
  exact ⟨storable, someRid_between⟩

end Range

def UserKey.ofText (bytes : List Byte) (inclusive : Bool) : UserKey :=
  ⟨fun index => bytes.getD index 0, bytes.length, inclusive⟩

def single (type : AttrType) (attr : type.Attr) : Entries type :=
  [(toLex (attr, someRid), someRid)]

/-- The numbers 0, 1.5, 2 and 2.5. -/
def halves : Numbers where
  has bits := bits ∈ [(0 : BitVec 32), 0x3FC00000, 0x40000000, 0x40200000]
  zero := by decide
  apart := by
    intro left right first second
    simp only [mem_cons, not_mem_nil, or_false, decide_eq_true_eq] at first second
    rcases first with rfl | rfl | rfl | rfl <;> rcases second with rfl | rfl | rfl | rfl <;>
      decide +kernel

def two : (AttrType.floats halves).Attr := ⟨0x40000000, by decide⟩

end CsuDbms.ScanRange
