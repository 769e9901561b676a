import CsuDbms.LittleEndian

/-!
# Length encoding of the MySQL protocol

`store_lenenc_int`, `store_lenenc_string` and the payload of a row in `write_tuple_result`, and
the protocol's rule for reading them. The thresholds are `2UL << 16` and `2UL << 24`, twice what
the two and three bytes behind them hold.
-/

namespace CsuDbms.MysqlProtocol

open LittleEndian List

def storeLenencInt (value : Nat) : List Byte :=
  if value < 251 then [Fin.ofNat 256 value]
  else if value < 2 <<< 16 then 252 :: encodeNat 2 value
  else if value < 2 <<< 24 then 253 :: encodeNat 3 value
  else 254 :: encodeNat 8 value

def strlen (text : List Byte) : Nat := (text.takeWhile (· ≠ 0)).length

/-- Copying a negative number of bytes has no defined result. -/
def storeLength (text : List Byte) : Int → Option (List Byte)
  | .ofNat len => some (storeLenencInt len ++ text.take len)
  | .negSucc _ => none

def storeLenencString (text : List Byte) : Option (List Byte) :=
  storeLength text (toSigned 4 (strlen text))

/-- The cells of a row packet, behind its header. -/
def rowPayload (cells : List (List Byte)) : Option (List Byte) :=
  (cells.mapM storeLenencString).map flatten

def width (first : Byte) : Option Nat :=
  if first = 252 then some 2
  else if first = 253 then some 3
  else if first = 254 then some 8
  else none

def readLenencInt : List Byte → Option (Nat × List Byte)
  | [] => none
  | first :: rest =>
    if first < 251 then some (first, rest)
    else
      (width first).bind fun count =>
        if rest.length < count then none else some (decodeNat (rest.take count), rest.drop count)

def readLenencString (bytes : List Byte) : Option (List Byte × List Byte) :=
  (readLenencInt bytes).bind fun (len, rest) =>
    if rest.length < len then none else some (rest.take len, rest.drop len)

def readCells : Nat → List Byte → Option (List (List Byte))
  | 0, bytes => if bytes = [] then some [] else none
  | count + 1, bytes =>
    (readLenencString bytes).bind fun (cell, rest) => (readCells count rest).map (cell :: ·)

/-- The number fits the bytes that its threshold gives it. -/
def Fits (value : Nat) : Prop :=
  value < 2 ^ 16 ∨ (2 ^ 17 ≤ value ∧ value < 2 ^ 24) ∨ 2 ^ 25 ≤ value

def kept (value : Nat) : Nat :=
  if value < 2 ^ 17 then value % 2 ^ 16 else if value < 2 ^ 25 then value % 2 ^ 24 else value

theorem kept_eq_iff (value : Nat) : kept value = value ↔ Fits value := by
  rw [kept, Fits]
  split
  · omega
  · split <;> omega

theorem kept_le (value : Nat) : kept value ≤ value := by
  rw [kept]
  split
  · exact Nat.mod_le ..
  · split
    · exact Nat.mod_le ..
    · exact Nat.le_refl _

theorem read_wide {first : Byte} {count : Nat} (large : ¬first < 251)
    (wide : width first = some count) (value : Nat) (rest : List Byte) :
    readLenencInt (first :: encodeNat count value ++ rest) = some (value % 256 ^ count, rest) := by
  have taken := length_encode_nat count value
  simp [readLenencInt, large, wide, taken, decode_encode_nat]

theorem read_lenenc_int {value : Nat} (bound : value < 2 ^ 64) (rest : List Byte) :
    readLenencInt (storeLenencInt value ++ rest) = some (kept value, rest) := by
  rw [storeLenencInt, kept]
  split
  · rename_i small
    have byte : (Fin.ofNat 256 value).val = value := Nat.mod_eq_of_lt (by omega)
    have low : Fin.ofNat 256 value < 251 := Fin.lt_def.mpr (byte.trans_lt small)
    rw [singleton_append, readLenencInt, if_pos low, byte, if_pos (by omega),
      Nat.mod_eq_of_lt (by omega)]
  · split
    · rw [read_wide (by decide) (by decide), if_pos (by omega)]
      rfl
    · split
      · rw [read_wide (by decide) (by decide), if_neg (by omega), if_pos (by omega)]
        rfl
      · rw [read_wide (by decide) (by decide), if_neg (by omega), if_neg (by omega)]
        exact congrArg (fun kept => some (kept, rest)) (Nat.mod_eq_of_lt bound)

def Readable (text : List Byte) : Prop := 0 ∉ text ∧ text.length < 2 ^ 31 ∧ Fits text.length

variable {text bytes : List Byte}

theorem strlen_eq_iff : strlen text = text.length ↔ 0 ∉ text := by
  rw [strlen, (takeWhile_sublist _).length_eq, takeWhile_eq_self_iff]
  grind

theorem store_lenenc_string (text : List Byte) :
    (storeLenencString text = none ∧ ¬Readable text) ∨
      ∃ len, storeLenencString text = some (storeLenencInt len ++ text.take len) ∧
        len ≤ text.length ∧ len < 2 ^ 64 ∧ (Readable text ↔ text.length ≤ kept len) := by
  have within : strlen text ≤ text.length := (takeWhile_sublist _).length_le
  have cut : toSigned 4 (strlen text) ≤ strlen text := to_signed_le (Int.natCast_nonneg _)
  have high := to_signed_lt 4 (strlen text)
  have exactly : Readable text → toSigned 4 (strlen text) = text.length := by
    rintro ⟨terminated, short, -⟩
    rw [strlen_eq_iff.mpr terminated]
    exact to_signed_of_range (by omega) (by norm_num; omega)
  rw [storeLenencString]
  cases sign : toSigned 4 (strlen text) with
  | negSucc => exact .inl ⟨rfl, fun readable => by simp [exactly readable] at sign⟩
  | ofNat len =>
    have less := kept_le len
    rw [sign, Int.ofNat_eq_natCast] at cut high exactly
    norm_num at high
    refine .inr ⟨len, rfl, by omega, by omega, fun readable => ?_, fun reached => ?_⟩
    · have same : len = text.length := by simpa using exactly readable
      rw [same, (kept_eq_iff _).mpr readable.2.2]
    · obtain rfl : len = text.length := by omega
      exact ⟨strlen_eq_iff.mp (by omega), high, (kept_eq_iff _).mp (by omega)⟩

theorem read_lenenc_string {len : Nat} (inside : len ≤ text.length) (small : len < 2 ^ 64)
    (rest : List Byte) :
    readLenencString (storeLenencInt len ++ text.take len ++ rest) =
      some (text.take (kept len), (text.take len).drop (kept len) ++ rest) := by
  have less := kept_le len
  have taken : (text.take len).length = len := by simp [inside]
  rw [readLenencString, append_assoc, read_lenenc_int small]
  simp only [Option.bind_some]
  rw [if_neg (by rw [length_append]; omega), take_append_of_le_length (by omega), take_take,
    drop_append_of_le_length (by omega), Nat.min_eq_left less]

theorem row_payload_cons {cells : List (List Byte)} (stored : storeLenencString text = some bytes) :
    rowPayload (text :: cells) = (rowPayload cells).map (bytes ++ ·) := by
  cases others : cells.mapM storeLenencString <;> simp [rowPayload, stored, others]

theorem row_read_iff (cells : List (List Byte)) :
    (rowPayload cells).bind (readCells cells.length) = some cells ↔
      ∀ cell ∈ cells, Readable cell := by
  induction cells with
  | nil => simp [rowPayload, readCells]
  | cons cell cells ih =>
    rw [forall_mem_cons, ← ih]
    rcases store_lenenc_string cell with ⟨undefined, unreadable⟩ | ⟨len, stored, inside, small, readable⟩
    · simp [rowPayload, undefined, unreadable]
    · rw [row_payload_cons stored, readable]
      cases rowPayload cells with
      | none => simp
      | some payload =>
        rw [Option.map_some, Option.bind_some, length_cons, readCells,
          read_lenenc_string inside small]
        by_cases reached : cell.length ≤ kept len
        · have spare : (cell.take len).drop (kept len) = [] := drop_of_length_le (by simp; omega)
          simp [spare, reached, take_of_length_le reached]
        · simp [reached, take_eq_self_iff]

theorem length_encoding_iff (value : UInt64) (rest : List Byte) (cells : List (List Byte)) :
    (readLenencInt (storeLenencInt value.toNat ++ rest) = some (value.toNat, rest) ↔
        Fits value.toNat) ∧
      ((rowPayload cells).bind (readCells cells.length) = some cells ↔
        ∀ cell ∈ cells, Readable cell) := by
  refine ⟨?_, row_read_iff cells⟩
  rw [read_lenenc_int value.toNat_lt, ← kept_eq_iff]
  simp

/-- The length of a text of 65536 bytes is read back as zero. -/
theorem length_65536_lost : readLenencInt (storeLenencInt 65536) = some (0, []) := by
  decide

end CsuDbms.MysqlProtocol
