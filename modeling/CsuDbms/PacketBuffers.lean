import CsuDbms.ResultCells

/-!
# The buffers of the MySQL packets

`ErrPacket::encode`, `send_column_definition` and `write_tuple_result` put one field behind the
other into a buffer of fixed size and never compare the offset with that size. There is no result
once a field goes beyond the buffer.
-/

namespace CsuDbms.MysqlProtocol

open LittleEndian ResultModel List

def encodePacket (size sequence : Nat) (payload : List Byte) : Option (List Byte) :=
  if size < 4 + payload.length then none
  else some (encodeNat 3 payload.length ++ Fin.ofNat 256 sequence :: payload)

/-- `ErrPacket::encode`, with or without `CLIENT_PROTOCOL_41`. -/
def errPacket (protocol41 : Bool) (sequence errorCode : Nat) (message : List Byte) :
    Option (List Byte) :=
  encodePacket 1000 sequence (255 :: encodeNat 2 errorCode ++
    (if protocol41 then [35, 72, 89, 48, 48, 48] else []) ++ message)

/-- Catalog `def`, schema `sys`, and table and alias of the column, each twice. -/
def columnNames (table name : List Byte) : List (List Byte) :=
  [[100, 101, 102], [115, 121, 115], table, table, name, name]

/-- Texts with their lengths, and `fields` behind them. -/
def textPacket (size sequence : Nat) (texts : List (List Byte)) (fields : List Byte) :
    Option (List Byte) :=
  (rowPayload texts).bind fun payload => encodePacket size sequence (payload ++ fields)

def columnDefinition (sequence : Nat) (table name : List Byte) : Option (List Byte) :=
  textPacket 1024 sequence (columnNames table name) (12 :: encodeNat 2 33 ++
    encodeNat 4 16384 ++ 253 :: encodeNat 2 0 ++ 31 :: encodeNat 2 0)

/-- A row of `write_tuple_result`, which is sent up to a cell that cannot be read. -/
def rowPacket (sequence : Nat) (cells : List (Option (List Byte))) : Option (List Byte) :=
  textPacket packetSize sequence (cells.takeWhile Option.isSome).reduceOption []

/-- The client takes as much as the header says. -/
def readPayload : List Byte → Option (List Byte)
  | low :: middle :: high :: _ :: rest =>
    if rest.length = decodeNat [low, middle, high] then some rest else none
  | _ => none

def readTexts (count extra : Nat) (bytes : List Byte) : Option (List (List Byte)) :=
  (readPayload bytes).bind fun payload => readCells count (payload.take (payload.length - extra))

theorem read_packet {size : Nat} (small : size ≤ packetSize) (sequence : Nat) (payload : List Byte) :
    (encodePacket size sequence payload).bind readPayload =
      if size < 4 + payload.length then none else some payload := by
  rw [encodePacket]
  split
  · rfl
  · obtain ⟨low, middle, high, header⟩ : ∃ low middle high,
        encodeNat 3 payload.length = [low, middle, high] := ⟨_, _, _, rfl⟩
    have len : decodeNat [low, middle, high] = payload.length := by
      unfold packetSize at small
      rw [← header, decode_encode_nat, Nat.mod_eq_of_lt (by omega)]
    simp [header, readPayload, len]

def stored (text : List Byte) : Nat := (storeLenencInt text.length).length + text.length

theorem row_payload_length {texts : List (List Byte)} (readable : ∀ text ∈ texts, Readable text) :
    ∃ payload, rowPayload texts = some payload ∧ payload.length = (texts.map stored).sum := by
  induction texts with
  | nil => exact ⟨[], rfl, rfl⟩
  | cons text texts ih =>
    obtain ⟨first, later⟩ := forall_mem_cons.mp readable
    obtain ⟨payload, others, length⟩ := ih later
    rcases store_lenenc_string text with ⟨-, unreadable⟩ | ⟨len, own, inside, -, reached⟩
    · exact absurd first unreadable
    · have less := kept_le len
      have whole := reached.mp first
      obtain rfl : len = text.length := by omega
      rw [row_payload_cons own, others]
      exact ⟨_, rfl, by simp [stored, length, Nat.add_assoc]⟩

theorem text_packet_iff {size : Nat} (small : size ≤ packetSize) (sequence : Nat)
    (texts : List (List Byte)) (fields : List Byte) :
    (textPacket size sequence texts fields).bind (readTexts texts.length fields.length) =
        some texts ↔
      (∀ text ∈ texts, Readable text) ∧ 4 + (texts.map stored).sum + fields.length ≤ size := by
  have read : (textPacket size sequence texts fields).bind (readTexts texts.length fields.length) =
      (rowPayload texts).bind fun payload =>
        if size < 4 + (payload.length + fields.length) then none
        else readCells texts.length payload := by
    rw [textPacket, Option.bind_assoc]
    refine congrArg _ (funext fun payload => ?_)
    have framed := read_packet small sequence (payload ++ fields)
    unfold readTexts
    rw [← Option.bind_assoc, framed]
    split <;> simp_all
  rw [read, ← row_read_iff]
  constructor
  · intro read
    obtain ⟨payload, sent, read⟩ := Option.bind_eq_some_iff.mp read
    split at read
    · cases read
    · rw [sent]
      have readable := (row_read_iff texts).mp (by rw [sent]; exact read)
      obtain ⟨same, found, length⟩ := row_payload_length readable
      cases sent.symm.trans found
      exact ⟨read, by omega⟩
  · rintro ⟨read, fits⟩
    obtain ⟨payload, sent, length⟩ := row_payload_length ((row_read_iff texts).mp read)
    rw [sent, Option.bind_some] at read ⊢
    rw [if_neg (by omega), read]

theorem packets_complete_iff (protocol41 : Bool) (sequence errorCode : Nat)
    (message table name : List Byte) (cells : List (Option (List Byte))) :
    (((errPacket protocol41 sequence errorCode message).bind readPayload).map
        (drop (if protocol41 then 9 else 3)) = some message ↔
      message.length ≤ if protocol41 then 987 else 993) ∧
    ((columnDefinition sequence table name).bind (readTexts 6 13) =
        some (columnNames table name) ↔
      Readable table ∧ Readable name ∧ stored table + stored name ≤ 499) ∧
    (((rowPacket sequence cells).bind (readTexts cells.length 0)).map (map some) = some cells ↔
      ∃ texts : List (List Byte), cells = texts.map some ∧ (∀ text ∈ texts, Readable text) ∧
        4 + (texts.map stored).sum ≤ packetSize) := by
  have code := length_encode_nat 2 errorCode
  refine ⟨?_, ?_, ?_⟩
  · rw [errPacket, read_packet (by decide)]
    cases protocol41 <;> simp [drop_append, code] <;> omega
  · have catalog : Readable [100, 101, 102] := ⟨by decide, by decide, .inl (by decide)⟩
    have schema : Readable [115, 121, 115] := ⟨by decide, by decide, .inl (by decide)⟩
    have three : stored [100, 101, 102] = 4 ∧ stored [115, 121, 115] = 4 := ⟨rfl, rfl⟩
    refine (text_packet_iff (by decide) _ _ _).trans ?_
    simp [columnNames, catalog, schema, three]
    grind
  · have sent (texts : List (List Byte)) : rowPacket sequence (texts.map some) =
        textPacket packetSize sequence texts [] := by
      have all : (texts.map some).takeWhile Option.isSome = texts.map some :=
        takeWhile_eq_self_iff.mpr (by simp)
      simp [rowPacket, all, reduceOption]
    constructor
    · intro read
      obtain ⟨texts, read, rfl⟩ := Option.map_eq_some_iff.mp read
      rw [sent, length_map] at read
      exact ⟨texts, rfl, (text_packet_iff le_rfl _ _ _).mp read⟩
    · rintro ⟨texts, rfl, fits⟩
      rw [sent, length_map]
      exact congrArg (Option.map _) ((text_packet_iff le_rfl sequence texts []).mpr fits)

/-- `SELECT a+a+…+a FROM t`, and an error message of 988 bytes. -/
theorem long_texts_overrun :
    columnDefinition 2 [] ((replicate 300 [97, 43]).flatten ++ [97]) = none ∧
      errPacket true 1 0 (replicate 988 97) = none := by
  decide +kernel

end CsuDbms.MysqlProtocol
