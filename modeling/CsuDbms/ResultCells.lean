import CsuDbms.LengthEncoding

/-!
# NULL in the results sent to a client

Both protocols send the text of each cell, and `Value::to_string` gives a NULL the text `null`;
the native one also sends the type of the first cell of a column. What the MySQL protocol sends
around the rows depends on the columns and the number of rows only. The layout of the JSON text
is that of a `StreamWriterBuilder` without indentation; how the library quotes a string is a
parameter, of which only so much is asked that a quoted text shows where it ends.
-/

namespace CsuDbms.ResultModel

open LittleEndian MysqlProtocol List

/-- `Value`, as far as it is NULL or a string. -/
inductive Cell where
  | null
  | chars (data : List Byte)
  deriving DecidableEq

def ascii (text : String) : List Byte := text.toList.map fun letter => Fin.ofNat 256 letter.toNat

def nullText : List Byte := [110, 117, 108, 108]

namespace Cell

def toString : Cell → List Byte
  | null => nullText
  | chars data => data.takeWhile (· ≠ 0)

def attrType : Cell → List Byte
  | null => ascii "undefined"
  | chars _ => ascii "chars"

/-- Of a length that the MySQL protocol keeps. -/
def Sendable : Cell → Prop
  | null => True
  | chars data => strlen data < 2 ^ 31 ∧ Fits (strlen data)

/-- The cell up to its first NUL byte, with the string `null` taken for a NULL. -/
def merged : Cell → Cell
  | null => null
  | chars data =>
    if data.takeWhile (· ≠ 0) = nullText then null else chars (data.takeWhile (· ≠ 0))

end Cell

structure QueryColumn where
  name : List Byte
  type : List Byte

/-- A success; `affected_rows` is not known and there are no warnings. -/
structure QueryResult where
  message : List Byte
  columns : List QueryColumn
  rows : List (List (List Byte))
  executionTimeUs : Nat

def unknown : List Byte := ascii "UNKNOWN"

def describe (columns : List QueryColumn) (row : List Cell) : List QueryColumn :=
  columns.mapIdx fun i column =>
    match row[i]? with
    | some cell => if column.type = unknown then { column with type := cell.attrType } else column
    | none => column

/-- The loops of `materialize`, over rows that all can be read. -/
def materialize (result : QueryResult) (names : List (List Byte)) (rows : List (List Cell)) :
    QueryResult :=
  { result with
    columns := rows.foldl describe (names.map (⟨·, unknown⟩))
    rows := rows.map (map Cell.toString) }

inductive Json where
  | null
  | bool (flag : Bool)
  | int (number : Nat)
  | string (text : List Byte)
  | array (items : List Json)
  | object (members : List (String × Json))

def columnJson (column : QueryColumn) : Json :=
  .object [("name", .string column.name), ("type", .string column.type)]

/-- The members stand in the order of their names, as `Json::Value` keeps them. -/
def toJson (result : QueryResult) : Json :=
  .object [("affected_rows", .null), ("columns", .array (result.columns.map columnJson)),
    ("error", .object [("code", .int 0), ("message", .string []), ("name", .string [])]),
    ("execution_time_us", .int result.executionTimeUs), ("message", .string result.message),
    ("rows", .array (result.rows.map fun row => .array (row.map .string))),
    ("success", .bool true), ("warnings", .array [])]

mutual

def writeValue (quote : List Byte → List Byte) : Json → List Byte
  | .null => ascii "null"
  | .bool flag => ascii (if flag then "true" else "false")
  | .int number => ascii (toString number)
  | .string text => quote text
  | .array items => 91 :: (writeItems quote items ++ [93])
  | .object members => 123 :: (writeMembers quote members ++ [125])

def writeItems (quote : List Byte → List Byte) : List Json → List Byte
  | [] => []
  | [item] => writeValue quote item
  | item :: items => writeValue quote item ++ 44 :: writeItems quote items

def writeMembers (quote : List Byte → List Byte) : List (String × Json) → List Byte
  | [] => []
  | [(name, value)] => quote (ascii name) ++ 58 :: writeValue quote value
  | (name, value) :: members =>
    quote (ascii name) ++ 58 :: writeValue quote value ++ 44 :: writeMembers quote members

end

def writeQueryResult (quote : List Byte → List Byte) (result : QueryResult) : List Byte :=
  writeValue quote (toJson result) ++ [0]

def packetSize : Nat := 4 * 1024 * 1024

/-- The packets of rows with such texts. A row that does not fit its buffer is written beyond it. -/
def rowPackets (sequence : Nat) : List (List (List Byte)) → Option (List Byte)
  | [] => some []
  | [] :: rows => rowPackets sequence rows
  | row :: rows =>
    (rowPayload row).bind fun payload =>
      if packetSize < 4 + payload.length then none
      else
        (rowPackets (sequence + 1) rows).map fun rest =>
          encodeNat 3 payload.length ++ Fin.ofNat 256 sequence :: (payload ++ rest)

def writeTupleResult (sequence : Nat) (rows : List (List Cell)) : Option (List Byte) :=
  rowPackets sequence (rows.map (map Cell.toString))

def readRows : List Nat → List Byte → Option (List (List (List Byte)))
  | [], _ => some []
  | 0 :: counts, bytes => (readRows counts bytes).map ([] :: ·)
  | (count + 1) :: counts, low :: middle :: high :: _ :: bytes =>
    let len := decodeNat [low, middle, high]
    (readCells (count + 1) (bytes.take len)).bind fun row =>
      (readRows counts (bytes.drop len)).map (row :: ·)
  | _, _ => none

theorem read_row_packets {sequence : Nat} {bytes : List Byte} {rows : List (List (List Byte))}
    (readable : ∀ row ∈ rows, ∀ text ∈ row, Readable text)
    (sent : rowPackets sequence rows = some bytes) : readRows (rows.map length) bytes = some rows := by
  induction rows generalizing sequence bytes with
  | nil => rfl
  | cons row rows ih =>
    obtain ⟨first, later⟩ := forall_mem_cons.mp readable
    cases row with
    | nil => exact congrArg (Option.map _) (ih later sent)
    | cons text row =>
      obtain ⟨payload, stored, sent⟩ := Option.bind_eq_some_iff.mp sent
      split at sent
      · cases sent
      · rename_i fits
        obtain ⟨rest, others, rfl⟩ := Option.map_eq_some_iff.mp sent
        have read := (row_read_iff _).mpr first
        rw [stored, Option.bind_some, length_cons] at read
        obtain ⟨low, middle, high, header⟩ : ∃ low middle high,
            encodeNat 3 payload.length = [low, middle, high] := ⟨_, _, _, rfl⟩
        have len : decodeNat [low, middle, high] = payload.length := by
          unfold packetSize at fits
          rw [← header, decode_encode_nat, Nat.mod_eq_of_lt (by omega)]
        simp [header, readRows, len, read, ih later others]

def ofText (text : List Byte) : Cell := if text = nullText then .null else .chars text

theorem of_text_injective : Function.Injective ofText := by
  intro one other same
  unfold ofText at same
  grind

theorem of_to_string (cell : Cell) : cell.merged = ofText cell.toString := by
  cases cell <;> rfl

theorem readable_to_string {cell : Cell} (sendable : cell.Sendable) : Readable cell.toString := by
  cases cell with
  | null => exact ⟨by decide, by decide, .inl (by decide)⟩
  | chars data =>
    refine ⟨fun zero => ?_, sendable⟩
    simpa using mem_takeWhile_imp zero

theorem merged_rows (rows : List (List Cell)) :
    rows.map (map Cell.merged) = (rows.map (map Cell.toString)).map (map ofText) := by
  rw [map_map]
  apply map_congr_left
  intro row _
  rw [Function.comp_apply, map_map]
  exact map_congr_left fun cell _ => of_to_string cell

theorem read_tuple_result {rows : List (List Cell)} {sequence : Nat} {bytes : List Byte}
    (sendable : ∀ row ∈ rows, ∀ cell ∈ row, cell.Sendable)
    (sent : writeTupleResult sequence rows = some bytes) :
    readRows (rows.map length) bytes = some (rows.map (map Cell.toString)) := by
  have read := read_row_packets (fun row member text inside => ?_) sent
  · simpa [Function.comp_def] using read
  · obtain ⟨cells, there, rfl⟩ := mem_map.mp member
    obtain ⟨cell, within, rfl⟩ := mem_map.mp inside
    exact readable_to_string (sendable cells there cell within)

section Told

variable {Item : Type*}

/-- Wherever their texts stand, they end at the same place only if they are the same. -/
def Told (write : Item → List Byte) (one other : Item) : Prop :=
  ∀ rest later, write one ++ rest = write other ++ later → one = other ∧ rest = later

variable {quote : List Byte → List Byte}

theorem items_told {one other : List Json} (each : Forall₂ (Told (writeValue quote)) one other) :
    Told (writeItems quote) one other := by
  induction each with
  | nil => exact fun _ _ same => ⟨rfl, same⟩
  | cons told each ih =>
    intro rest later same
    cases each with
    | nil =>
      obtain ⟨rfl, rfl⟩ := told rest later same
      exact ⟨rfl, rfl⟩
    | cons next each =>
      simp only [writeItems, append_assoc, cons_append] at same
      obtain ⟨rfl, behind⟩ := told _ _ same
      obtain ⟨items, rfl⟩ := ih rest later (cons_inj_right _ |>.mp behind)
      exact ⟨congrArg _ items, rfl⟩

theorem array_told {one other : List Json} (each : Forall₂ (Told (writeValue quote)) one other) :
    Told (writeValue quote) (.array one) (.array other) := by
  intro rest later same
  simp only [writeValue, cons_append, append_assoc, cons.injEq, true_and] at same
  obtain ⟨rfl, behind⟩ := items_told each _ _ same
  exact ⟨rfl, by simpa using behind⟩

theorem column_told {one other : QueryColumn} (named : one.name = other.name)
    (told : Told quote one.type other.type) :
    Told (writeValue quote) (columnJson one) (columnJson other) := by
  intro rest later same
  simp only [columnJson, writeValue, writeMembers, cons_append, append_assoc, cons.injEq, true_and,
    append_cancel_left_eq, named] at same ⊢
  obtain ⟨typed, behind⟩ := told _ _ same
  exact ⟨by rw [typed], by simpa using behind⟩

theorem rows_told {one other : List (List (List Byte))} (shape : one.map length = other.map length)
    (told : ∀ row ∈ one, ∀ text ∈ row, ∀ second ∈ other, ∀ again ∈ second, Told quote text again) :
    Forall₂ (Told (writeValue quote)) (one.map fun row => .array (row.map .string))
      (other.map fun row => .array (row.map .string)) := by
  rw [forall₂_map_left_iff, forall₂_map_right_iff, forall₂_iff_zip]
  rw [← forall₂_eq_eq_eq, forall₂_map_left_iff, forall₂_map_right_iff, forall₂_iff_zip] at shape
  refine ⟨shape.1, fun {row second} pair => array_told ?_⟩
  rw [forall₂_map_left_iff, forall₂_map_right_iff, forall₂_iff_zip]
  refine ⟨shape.2 pair, fun {text again} inside rest later same => ?_⟩
  obtain ⟨there, second_there⟩ := of_mem_zip pair
  obtain ⟨here, again_here⟩ := of_mem_zip inside
  obtain ⟨rfl, behind⟩ := told row there text here second second_there again again_here rest later same
  exact ⟨rfl, behind⟩

end Told

/-- The texts a column's type can have. -/
def typeTexts : List (List Byte) := [unknown, ascii "undefined", ascii "chars"]

structure Described (names : List (List Byte)) (columns : List QueryColumn) : Prop where
  named : columns.map QueryColumn.name = names
  typed : ∀ column ∈ columns, column.type ∈ typeTexts

theorem described_start (names : List (List Byte)) : Described names (names.map (⟨·, unknown⟩)) :=
  ⟨by simp [Function.comp_def], by simp [typeTexts]⟩

theorem attr_type_mem (cell : Cell) : cell.attrType ∈ typeTexts := by
  cases cell <;> simp [Cell.attrType, typeTexts]

theorem described_rows {names : List (List Byte)} {columns : List QueryColumn}
    (described : Described names columns) (rows : List (List Cell)) :
    Described names (rows.foldl describe columns) := by
  induction rows generalizing columns with
  | nil => exact described
  | cons row rows ih =>
    apply ih
    constructor
    · rw [← described.named, describe]
      apply ext_getElem <;> grind
    · intro column member
      obtain ⟨i, inside, rfl⟩ := mem_mapIdx.mp member
      have before := described.typed _ (getElem_mem inside)
      have cells := attr_type_mem
      grind

theorem columns_told {quote : List Byte → List Byte} {names : List (List Byte)}
    {one other : List QueryColumn} (first : Described names one) (second : Described names other)
    (told : ∀ type ∈ typeTexts, ∀ again ∈ typeTexts, Told quote type again) :
    Forall₂ (Told (writeValue quote)) (one.map columnJson) (other.map columnJson) := by
  have named := first.named.trans second.named.symm
  rw [← forall₂_eq_eq_eq, forall₂_map_left_iff, forall₂_map_right_iff, forall₂_iff_zip] at named
  rw [forall₂_map_left_iff, forall₂_map_right_iff, forall₂_iff_zip]
  refine ⟨named.1, fun {column again} pair => ?_⟩
  obtain ⟨here, there⟩ := of_mem_zip pair
  exact column_told (named.2 pair) (told _ (first.typed _ here) _ (second.typed _ there))

/-- What is asked of the quotation of strings: it tells the texts of a set apart. -/
def Quotes (quote : List Byte → List Byte) (plain : Set (List Byte)) : Prop :=
  (∀ type ∈ typeTexts, type ∈ plain) ∧ ∀ one ∈ plain, ∀ other ∈ plain, Told quote one other

theorem json_keeps_rows {quote : List Byte → List Byte} {plain : Set (List Byte)}
    (quotes : Quotes quote plain) {result : QueryResult} {names : List (List Byte)}
    {one other : List (List Cell)} (shape : one.map length = other.map length)
    (texts : ∀ rows ∈ [one, other], ∀ row ∈ rows, ∀ cell ∈ row, cell.toString ∈ plain)
    (same : writeQueryResult quote (materialize result names one) =
      writeQueryResult quote (materialize result names other)) :
    one.map (map Cell.toString) = other.map (map Cell.toString) := by
  simp only [writeQueryResult, toJson, writeValue, writeMembers, cons_append, append_assoc,
    cons.injEq, true_and, append_cancel_left_eq, materialize] at same
  obtain ⟨-, behind⟩ := items_told (columns_told (described_rows (described_start names) one)
    (described_rows (described_start names) other)
    fun type here again there => quotes.2 _ (quotes.1 _ here) _ (quotes.1 _ there)) _ _ same
  simp only [cons.injEq, true_and, append_cancel_left_eq] at behind
  have kept : ∀ rows ∈ [one, other], ∀ row ∈ rows.map (map Cell.toString), ∀ text ∈ row,
      text ∈ plain := by
    intro rows listed row here text inside
    obtain ⟨cells, member, rfl⟩ := mem_map.mp here
    obtain ⟨cell, within, rfl⟩ := mem_map.mp inside
    exact texts rows listed cells member cell within
  obtain ⟨rows, -⟩ := items_told (rows_told (by simpa [Function.comp_def] using shape)
    fun row here text inside second there again within => quotes.2
      _ (kept one (by simp) row here text inside)
      _ (kept other (by simp) second there again within)) _ _ behind
  refine (map_inj_right fun row second same => ?_).mp rows
  exact (map_inj_right fun _ _ => Json.string.inj).mp (Json.array.inj same)

/-- Both protocols tell two results apart if these differ in more than NULLs and strings `null`. -/
theorem results_apart_iff {one other : List (List Cell)} {sequence : Nat} {result : QueryResult}
    {names : List (List Byte)} {quote : List Byte → List Byte} {plain : Set (List Byte)}
    (quotes : Quotes quote plain) (shape : one.map length = other.map length)
    (texts : ∀ rows ∈ [one, other], ∀ row ∈ rows, ∀ cell ∈ row, cell.toString ∈ plain)
    (sendable : ∀ rows ∈ [one, other], ∀ row ∈ rows, ∀ cell ∈ row, cell.Sendable)
    (sent : (writeTupleResult sequence one).isSome) :
    (writeQueryResult quote (materialize result names one) ≠
          writeQueryResult quote (materialize result names other) ∧
        writeTupleResult sequence one ≠ writeTupleResult sequence other) ↔
      one.map (map Cell.merged) ≠ other.map (map Cell.merged) := by
  rw [merged_rows, merged_rows,
    (map_injective_iff.mpr (map_injective_iff.mpr of_text_injective)).ne_iff]
  constructor
  · exact fun apart same => apart.2 (congrArg (rowPackets sequence) same)
  · refine fun differ => ⟨fun same => differ (json_keeps_rows quotes shape texts same),
      fun same => differ ?_⟩
    obtain ⟨bytes, sent⟩ := Option.isSome_iff_exists.mp sent
    have read := read_tuple_result (sendable one (by simp)) sent
    rw [shape, read_tuple_result (sendable other (by simp)) (same ▸ sent)] at read
    exact (Option.some.inj read).symm

def hexDigit (value : Nat) : Byte := Fin.ofNat 256 (if value < 10 then 48 + value else 87 + value)

/-- A byte of a string in ASCII, as the library writes it. -/
def escapeByte (byte : Byte) : List Byte :=
  if byte = 34 ∨ byte = 92 then [92, byte]
  else if byte = 8 then [92, 98]
  else if byte = 9 then [92, 116]
  else if byte = 10 then [92, 110]
  else if byte = 12 then [92, 102]
  else if byte = 13 then [92, 114]
  else if byte < 32 then [92, 117, 48, 48, hexDigit (byte / 16), hexDigit (byte % 16)]
  else [byte]

def quoteAscii (text : List Byte) : List Byte := 34 :: (text.flatMap escapeByte ++ [34])

/-- The byte at the start of an escaped text. -/
def unescapeByte : List Byte → Option (Byte × List Byte)
  | 92 :: 117 :: _ :: _ :: high :: low :: rest =>
    let value (digit : Byte) : Nat := if digit < 58 then digit - 48 else digit - 87
    some (Fin.ofNat 256 (16 * value high + value low), rest)
  | 92 :: letter :: rest =>
    some (if letter = 98 then 8 else if letter = 116 then 9 else if letter = 110 then 10
      else if letter = 102 then 12 else if letter = 114 then 13 else letter, rest)
  | byte :: rest => some (byte, rest)
  | [] => none

theorem unescape_escape (byte : Byte) (rest : List Byte) :
    unescapeByte (escapeByte byte ++ rest) = some (byte, rest) := by
  fin_cases byte <;> rfl

theorem escaped_not_quote (byte : Byte) (rest later : List Byte) :
    escapeByte byte ++ rest ≠ 34 :: later := by
  unfold escapeByte
  grind

theorem quote_ascii_told (one other : List Byte) : Told quoteAscii one other := by
  intro rest later same
  simp only [quoteAscii, cons_append, append_assoc, cons.injEq, true_and, nil_append] at same
  induction one generalizing other with
  | nil =>
    cases other with
    | nil => exact ⟨rfl, by simpa using same⟩
    | cons byte other =>
      rw [flatMap_cons, append_assoc] at same
      exact absurd same.symm (escaped_not_quote byte _ rest)
  | cons byte one ih =>
    rw [flatMap_cons, append_assoc] at same
    cases other with
    | nil => exact absurd same (escaped_not_quote byte _ later)
    | cons next other =>
      -- both texts are read one byte on
      have read := congrArg unescapeByte same
      rw [flatMap_cons, append_assoc, unescape_escape, unescape_escape] at read
      obtain ⟨rfl, behind⟩ := Prod.mk.inj (Option.some.inj read)
      obtain ⟨rfl, ends⟩ := ih other behind
      exact ⟨rfl, ends⟩

def okResult : QueryResult := ⟨ascii "Query OK", [], [], 0⟩

theorem null_not_empty :
    writeQueryResult quoteAscii (materialize okResult [[99]] [[.null]]) ≠
        writeQueryResult quoteAscii (materialize okResult [[99]] [[.chars []]]) ∧
      writeTupleResult 1 [[.null]] ≠ writeTupleResult 1 [[.chars []]] := by
  have quotes : Quotes quoteAscii Set.univ :=
    ⟨fun _ _ => trivial, fun one _ other _ => quote_ascii_told one other⟩
  have sendable : ∀ rows ∈ [[[Cell.null]], [[.chars []]]], ∀ row ∈ rows, ∀ cell ∈ row,
      cell.Sendable := by simp [Cell.Sendable, strlen, Fits]
  have apart := @results_apart_iff [[.null]] [[.chars []]] 1 okResult [[99]] quoteAscii Set.univ
    quotes (by decide) (fun _ _ _ _ _ _ => trivial) sendable (by decide)
  exact apart.mpr (by decide)

def nullBelow : List (List Cell) := [[.chars [97]], [.null]]

def textBelow : List (List Cell) := [[.chars [97]], [.chars nullText]]

theorem null_taken_for_text : nullBelow ≠ textBelow ∧
    (∀ quote, writeQueryResult quote (materialize okResult [[99]] nullBelow) =
      writeQueryResult quote (materialize okResult [[99]] textBelow)) ∧
    ∀ sequence, writeTupleResult sequence nullBelow = writeTupleResult sequence textBelow :=
  ⟨by decide, fun _ => rfl, fun _ => rfl⟩

end CsuDbms.ResultModel
