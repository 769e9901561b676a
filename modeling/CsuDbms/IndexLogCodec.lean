import CsuDbms.BufferPoolHeaderModel
import CsuDbms.ByteReader

/-!
# The bytes of the index log

`LogEntryHandler::serialize` and `from_buffer` with the ten kinds of entries. An
`int32_t` is a 32-bit vector. A handler without a frame cannot be serialized, since
`serialize_header` asks the frame for the page number. The values a rollback needs are
not written; a handler that was read has `-1` or an empty key there.
-/

namespace CsuDbms.IndexLogCodec

open BufferPoolHeaderModel ByteReader LittleEndian List Option

abbrev PageNum := BitVec 32

inductive LogOperation where
  | initHeaderPage
  | updateRootPage
  | setParentPage
  | leafInitEmpty
  | leafSetNextPage
  | internalInitEmpty
  | internalCreateNewRoot
  | internalUpdateKey
  | nodeInsert
  | nodeRemove
  deriving DecidableEq

namespace LogOperation

def all : List LogOperation :=
  [initHeaderPage, updateRootPage, setParentPage, leafInitEmpty, leafSetNextPage,
    internalInitEmpty, internalCreateNewRoot, internalUpdateKey, nodeInsert, nodeRemove]

def index (operation : LogOperation) : BitVec 32 := BitVec.ofNat 32 (all.idxOf operation)

/-- The check of the type in `from_buffer` and the conversion after it. -/
def ofIndex (type : BitVec 32) : Option LogOperation :=
  if type.slt 0#32 || !type.slt (BitVec.ofNat 32 all.length) then none else all[type.toNat]?

end LogOperation

structure IndexFileHeader where
  rootPage : PageNum
  internalMaxSize : BitVec 32
  leafMaxSize : BitVec 32
  attrLength : BitVec 32
  keyLength : BitVec 32
  attrType : BitVec 32
  deriving DecidableEq

inductive NodeOperation where
  | insert
  | remove
  deriving DecidableEq

inductive LogBody where
  | initHeaderPage (fileHeader : IndexFileHeader)
  | updateRootPage (rootPageNum oldPageNum : PageNum)
  | setParentPage (parentPageNum oldParentPageNum : PageNum)
  | leafInitEmpty
  | leafSetNextPage (newPageNum oldPageNum : PageNum)
  | internalInitEmpty
  | internalCreateNewRoot (firstPageNum pageNum : PageNum) (key : List Byte)
  | internalUpdateKey (index : BitVec 32) (key oldKey : List Byte)
  | normalOperation (operation : NodeOperation) (index itemNum : BitVec 32) (items : List Byte)
  deriving DecidableEq

/-- `frame` is the page number of the frame, if there is one. -/
structure LogEntryHandler where
  frame : Option PageNum
  pageNum : PageNum
  body : LogBody
  deriving DecidableEq

namespace LogBody

def operation : LogBody → LogOperation
  | initHeaderPage _ => .initHeaderPage
  | updateRootPage _ _ => .updateRootPage
  | setParentPage _ _ => .setParentPage
  | leafInitEmpty => .leafInitEmpty
  | leafSetNextPage _ _ => .leafSetNextPage
  | internalInitEmpty => .internalInitEmpty
  | internalCreateNewRoot _ _ _ => .internalCreateNewRoot
  | internalUpdateKey _ _ _ => .internalUpdateKey
  | normalOperation .insert _ _ _ => .nodeInsert
  | normalOperation .remove _ _ _ => .nodeRemove

def writeVector (bytes : List Byte) : List Byte :=
  writeInt32 (BitVec.ofNat 32 bytes.length) ++ bytes

def serializeBody : LogBody → List Byte
  | initHeaderPage header =>
    writeInt32 header.rootPage ++ writeInt32 header.internalMaxSize ++
      writeInt32 header.leafMaxSize ++ writeInt32 header.attrLength ++
      writeInt32 header.keyLength ++ writeInt32 header.attrType
  | updateRootPage rootPageNum _ => writeInt32 rootPageNum
  | setParentPage parentPageNum _ => writeInt32 parentPageNum
  | leafInitEmpty => []
  | leafSetNextPage newPageNum _ => writeInt32 newPageNum
  | internalInitEmpty => []
  | internalCreateNewRoot firstPageNum pageNum key =>
    writeInt32 firstPageNum ++ writeInt32 pageNum ++ writeVector key
  | internalUpdateKey index key _ => writeInt32 index ++ writeVector key
  | normalOperation _ index itemNum items =>
    writeInt32 index ++ writeInt32 itemNum ++ writeVector items

/-- `vector<char>(size)` throws for a negative size, which is huge as a `size_t`. -/
def readVector (size : BitVec 32) : Reader RC (List Byte) :=
  if size.slt 0#32 then throw else take size.toNat .internal

/-- The `deserialize` of each handler. The header of the index is read at once in the source. -/
def deserialize : LogOperation → Reader RC LogBody
  | .initHeaderPage => do
      let rootPage ← readInt32 .internal
      let internalMaxSize ← readInt32 .internal
      let leafMaxSize ← readInt32 .internal
      let attrLength ← readInt32 .internal
      let keyLength ← readInt32 .internal
      let attrType ← readInt32 .internal
      pure (initHeaderPage
        ⟨rootPage, internalMaxSize, leafMaxSize, attrLength, keyLength, attrType⟩)
  | .updateRootPage => do
      let rootPageNum ← readInt32 .internal
      pure (updateRootPage rootPageNum (-1))
  | .setParentPage => do
      let parentPageNum ← readInt32 .internal
      pure (setParentPage parentPageNum (-1))
  | .leafInitEmpty => pure leafInitEmpty
  | .leafSetNextPage => do
      let pageNum ← readInt32 .internal
      pure (leafSetNextPage pageNum (-1))
  | .internalInitEmpty => pure internalInitEmpty
  | .internalCreateNewRoot => do
      let firstPageNum ← readInt32 .internal
      let pageNum ← readInt32 .internal
      let keySize ← readInt32 .internal
      let key ← readVector keySize
      pure (internalCreateNewRoot firstPageNum pageNum key)
  | .internalUpdateKey => do
      let index ← readInt32 .internal
      let keySize ← readInt32 .internal
      let key ← readVector keySize
      pure (internalUpdateKey index key [])
  | .nodeInsert => readNormal .insert
  | .nodeRemove => readNormal .remove
where
  readNormal (operation : NodeOperation) : Reader RC LogBody := do
    let index ← readInt32 .internal
    let itemNum ← readInt32 .internal
    let itemBytes ← readInt32 .internal
    let items ← readVector itemBytes
    pure (normalOperation operation index itemNum items)

end LogBody

namespace LogEntryHandler

def pageNumber (entry : LogEntryHandler) : PageNum := entry.frame.getD entry.pageNum

/-- What `serialize` writes when there is a frame. -/
def bytes (entry : LogEntryHandler) : List Byte :=
  writeInt32 entry.body.operation.index ++ writeInt32 entry.pageNumber ++ entry.body.serializeBody

def serialize (entry : LogEntryHandler) : Option (List Byte) :=
  entry.frame.map fun _ => entry.bytes

def fromBuffer (frameGetter : PageNum → Except RC (Option PageNum)) : Reader RC LogEntryHandler := do
  let type ← readInt32 .invalidArgument
  match LogOperation.ofIndex type with
  | none => fail .invalidArgument
  | some operation => do
      let pageNum ← readInt32 .invalidArgument
      match frameGetter pageNum with
      | .error rc => fail rc
      | .ok frame => do
          let body ← LogBody.deserialize operation
          pure ⟨frame, pageNum, body⟩

def fromBuffers (frameGetter : PageNum → Except RC (Option PageNum)) (bytes : List Byte) :
    Option (Outcome RC (List LogEntryHandler)) :=
  many (fromBuffer frameGetter) bytes.length bytes

end LogEntryHandler

namespace LogBody

def vector : LogBody → List Byte
  | internalCreateNewRoot _ _ key => key
  | internalUpdateKey _ key _ => key
  | normalOperation _ _ _ items => items
  | _ => []

/-- The size of the variable part is the `int32_t` that is written for it. -/
def Fits (body : LogBody) : Prop := body.vector.length < 2 ^ 31

instance (body : LogBody) : Decidable body.Fits := inferInstanceAs (Decidable (_ < _))

/-- What is left of a handler when it is written and read: not what only a rollback needs. -/
def logged : LogBody → LogBody
  | updateRootPage rootPageNum _ => updateRootPage rootPageNum (-1)
  | setParentPage parentPageNum _ => setParentPage parentPageNum (-1)
  | leafSetNextPage newPageNum _ => leafSetNextPage newPageNum (-1)
  | internalUpdateKey index key _ => internalUpdateKey index key []
  | body => body

theorem fits_logged (body : LogBody) : body.logged.Fits ↔ body.Fits := by
  cases body <;> rfl

theorem slt_zero_iff (size : BitVec 32) : size.slt 0#32 = true ↔ 2 ^ 31 ≤ size.toNat := by
  rw [BitVec.slt_zero_eq_msb, BitVec.msb_eq_decide]
  simp

variable {bytes : List Byte}

theorem readVector_eq_ok {size : BitVec 32} {value rest : List Byte} :
    readVector size bytes = .ok (value, rest) ↔
      size = BitVec.ofNat 32 value.length ∧ value.length < 2 ^ 31 ∧ bytes = value ++ rest := by
  rw [readVector]
  constructor
  · intro done
    by_cases negative : size.slt 0#32 = true
    · simp [negative] at done
    · rw [if_neg negative, take_eq_ok] at done
      rw [slt_zero_iff] at negative
      refine ⟨?_, by omega, done.2⟩
      rw [done.1, BitVec.ofNat_toNat, BitVec.setWidth_eq]
  · rintro ⟨rfl, short, rfl⟩
    have small : (BitVec.ofNat 32 value.length).toNat = value.length := by
      rw [BitVec.toNat_ofNat, Nat.mod_eq_of_lt (by omega)]
    have nonneg : ¬ (BitVec.ofNat 32 value.length).slt 0#32 = true := by
      rw [slt_zero_iff, small]
      omega
    rw [if_neg nonneg, take_eq_ok]
    exact ⟨small.symm, rfl⟩

theorem readVector_eq_thrown {size : BitVec 32} :
    readVector size bytes = .thrown ↔ size.slt 0#32 = true := by
  rw [readVector]
  split_ifs with negative <;> simp [negative]

theorem vector_bind {Result : Type} {next : List Byte → Reader RC Result}
    (short : bytes.length < 2 ^ 31) (rest : List Byte) :
    (readInt32 .internal >>= fun size => readVector size >>= next) (writeVector bytes ++ rest) =
      next bytes rest := by
  rw [writeVector, append_assoc, readInt32_bind]
  exact bind_of_ok (readVector_eq_ok.mpr ⟨rfl, short, rfl⟩)

theorem deserialize_serializeBody (body : LogBody) (fits : body.Fits) (rest : List Byte) :
    deserialize body.operation (body.serializeBody ++ rest) = .ok (body.logged, rest) := by
  cases body with
  | initHeaderPage header =>
    simp only [operation, deserialize, serializeBody, append_assoc, readInt32_bind]
    rfl
  | updateRootPage rootPageNum oldPageNum => exact readInt32_bind rootPageNum rest
  | setParentPage parentPageNum oldParentPageNum => exact readInt32_bind parentPageNum rest
  | leafInitEmpty => rfl
  | leafSetNextPage newPageNum oldPageNum => exact readInt32_bind newPageNum rest
  | internalInitEmpty => rfl
  | internalCreateNewRoot firstPageNum pageNum key | internalUpdateKey index key oldKey =>
    simp only [operation, deserialize, serializeBody, append_assoc, readInt32_bind]
    exact vector_bind fits rest
  | normalOperation operation index itemNum items =>
    cases operation <;>
      simp only [LogBody.operation, deserialize, deserialize.readNormal, serializeBody,
        append_assoc, readInt32_bind] <;> exact vector_bind fits rest

variable {operation : LogOperation}

theorem deserialize_exact {rest : List Byte} {body : LogBody}
    (done : deserialize operation bytes = .ok (body, rest)) :
    body.operation = operation ∧ bytes = body.serializeBody ++ rest ∧ body.Fits ∧
      body.logged = body := by
  cases operation <;>
    simp only [deserialize, deserialize.readNormal, bind_eq_ok, readInt32_eq_ok, readVector_eq_ok,
      pure_eq_ok] at done <;> grind [LogBody.operation, serializeBody, Fits, vector, logged, writeVector]

def wordsBefore : LogOperation → Option Nat
  | .internalCreateNewRoot => some 2
  | .internalUpdateKey => some 1
  | .nodeInsert => some 2
  | .nodeRemove => some 2
  | _ => none

def NegativeSize (operation : LogOperation) (bytes : List Byte) : Prop :=
  ∃ (words : List (BitVec 32)) (size : BitVec 32) (rest : List Byte),
    wordsBefore operation = some words.length ∧
      bytes = words.flatMap writeInt32 ++ writeInt32 size ++ rest ∧ size.slt 0#32 = true

theorem negativeSize_two (count : wordsBefore operation = some 2) :
    NegativeSize operation bytes ↔ ∃ first second size rest,
      bytes = writeInt32 first ++ (writeInt32 second ++ (writeInt32 size ++ rest)) ∧
        size.slt 0#32 = true := by
  constructor
  · rintro ⟨words, size, rest, length, rfl, negative⟩
    obtain ⟨first, second, rfl⟩ := length_eq_two.mp (some.inj (length.symm.trans count))
    exact ⟨first, second, size, rest, by simp, negative⟩
  · rintro ⟨first, second, size, rest, rfl, negative⟩
    exact ⟨[first, second], size, rest, count, by simp, negative⟩

theorem deserialize_eq_thrown :
    deserialize operation bytes = .thrown ↔ NegativeSize operation bytes := by
  have plain : wordsBefore operation = none → ¬ NegativeSize operation bytes :=
    fun absent ⟨_, _, _, count, _⟩ => by simp [absent] at count
  cases operation with
  | initHeaderPage | updateRootPage | setParentPage | leafSetNextPage =>
    simpa [deserialize, readInt32_ne_thrown] using plain rfl
  | leafInitEmpty => simpa [deserialize] using plain rfl
  | internalInitEmpty => simpa [deserialize] using plain rfl
  | internalCreateNewRoot =>
    rw [negativeSize_two rfl]
    simp only [deserialize, bind_eq_thrown, readInt32_ne_thrown, readInt32_eq_ok,
      readVector_eq_thrown, pure_ne_thrown, false_or, and_false, exists_false, or_false]
    grind
  | internalUpdateKey =>
    simp only [deserialize, bind_eq_thrown, readInt32_ne_thrown, readInt32_eq_ok,
      readVector_eq_thrown, pure_ne_thrown, false_or, and_false, exists_false, or_false]
    constructor
    · rintro ⟨index, _, rfl, size, rest, rfl, negative⟩
      exact ⟨[index], size, rest, rfl, by simp, negative⟩
    · rintro ⟨words, size, rest, length, rfl, negative⟩
      obtain ⟨index, rfl⟩ := length_eq_one_iff.mp (some.inj length).symm
      exact ⟨index, _, by simp, size, rest, rfl, negative⟩
  | nodeInsert | nodeRemove =>
    rw [negativeSize_two rfl]
    simp only [deserialize, deserialize.readNormal, bind_eq_thrown, readInt32_ne_thrown,
      readInt32_eq_ok, readVector_eq_thrown, pure_ne_thrown, false_or, and_false, exists_false,
      or_false]
    grind

end LogBody

namespace LogOperation

theorem ofIndex_index (operation : LogOperation) : ofIndex operation.index = some operation := by
  cases operation <;> rfl

theorem eq_index_of_ofIndex {type : BitVec 32} {operation : LogOperation}
    (known : ofIndex type = some operation) : type = operation.index := by
  rw [ofIndex] at known
  split_ifs at known
  obtain ⟨bound, rfl⟩ := List.getElem?_eq_some_iff.mp known
  have distinct : all.Nodup := by decide
  rw [index, distinct.idxOf_getElem, BitVec.ofNat_toNat, BitVec.setWidth_eq]

end LogOperation

namespace LogEntryHandler

variable {frameGetter : PageNum → Except RC (Option PageNum)}

/-- The pages are fetched from a buffer pool, and a frame has the number of its page. -/
def Framed (frameGetter : PageNum → Except RC (Option PageNum)) : Prop :=
  ∀ pageNum frame, frameGetter pageNum = .ok frame → frame = some pageNum

def logged (entry : LogEntryHandler) : LogEntryHandler := { entry with body := entry.body.logged }

variable {entry : LogEntryHandler}

theorem fromBuffer_bytes (fits : entry.body.Fits) (frame : entry.frame = some entry.pageNum)
    (fetched : frameGetter entry.pageNum = .ok entry.frame) (rest : List Byte) :
    fromBuffer frameGetter (entry.bytes ++ rest) = .ok (entry.logged, rest) := by
  have number : entry.pageNumber = entry.pageNum := by rw [pageNumber, frame, getD_some]
  rw [bytes, fromBuffer, number, append_assoc, append_assoc, readInt32_bind,
    LogOperation.ofIndex_index]
  simp only [readInt32_bind, fetched]
  exact bind_of_ok (LogBody.deserialize_serializeBody entry.body fits rest)

theorem fromBuffer_eq_ok {bytes rest : List Byte}
    (done : fromBuffer frameGetter bytes = .ok (entry, rest)) :
    entry.body.Fits ∧ entry.logged = entry ∧ frameGetter entry.pageNum = .ok entry.frame ∧
      bytes = writeInt32 entry.body.operation.index ++ writeInt32 entry.pageNum ++
        entry.body.serializeBody ++ rest := by
  simp only [fromBuffer, bind_eq_ok, readInt32_eq_ok] at done
  obtain ⟨type, middle, rfl, done⟩ := done
  cases known : LogOperation.ofIndex type with
  | none => simp [known] at done
  | some operation =>
    simp only [known, bind_eq_ok, readInt32_eq_ok] at done
    obtain ⟨pageNum, middle, rfl, done⟩ := done
    cases fetched : frameGetter pageNum with
    | error rc => simp [fetched] at done
    | ok frame =>
      simp only [fetched, bind_eq_ok, pure_eq_ok] at done
      obtain ⟨body, middle, read, rfl, rfl⟩ := done
      obtain ⟨rfl, rfl, fits, same⟩ := LogBody.deserialize_exact read
      refine ⟨fits, ?_, fetched, ?_⟩
      · rw [logged, same]
      · rw [LogOperation.eq_index_of_ofIndex known, append_assoc, append_assoc]

def NegativeSize (frameGetter : PageNum → Except RC (Option PageNum)) (bytes : List Byte) : Prop :=
  ∃ operation pageNum frame rest, frameGetter pageNum = .ok frame ∧
    bytes = writeInt32 operation.index ++ writeInt32 pageNum ++ rest ∧
    LogBody.NegativeSize operation rest

theorem fromBuffer_eq_thrown {bytes : List Byte} :
    fromBuffer frameGetter bytes = .thrown ↔ NegativeSize frameGetter bytes := by
  simp only [fromBuffer, bind_eq_thrown, readInt32_ne_thrown, readInt32_eq_ok, false_or]
  constructor
  · rintro ⟨type, middle, rfl, thrown⟩
    cases known : LogOperation.ofIndex type with
    | none => simp [known] at thrown
    | some operation =>
      simp only [known, bind_eq_thrown, readInt32_ne_thrown, readInt32_eq_ok, false_or] at thrown
      obtain ⟨pageNum, rest, rfl, thrown⟩ := thrown
      cases fetched : frameGetter pageNum with
      | error rc => simp [fetched] at thrown
      | ok frame =>
        simp only [fetched, bind_eq_thrown, LogBody.deserialize_eq_thrown, pure_ne_thrown,
          and_false, exists_false, or_false] at thrown
        rw [LogOperation.eq_index_of_ofIndex known]
        exact ⟨operation, pageNum, frame, rest, fetched, by rw [append_assoc], thrown⟩
  · rintro ⟨operation, pageNum, frame, rest, fetched, rfl, negative⟩
    refine ⟨operation.index, _, append_assoc .., ?_⟩
    simp only [LogOperation.ofIndex_index, bind_eq_thrown, readInt32_eq_ok]
    refine .inr ⟨pageNum, rest, rfl, ?_⟩
    simp only [fetched, bind_eq_thrown]
    exact .inl (LogBody.deserialize_eq_thrown.mpr negative)

theorem bytes_ne_nil (entry : LogEntryHandler) : entry.bytes ≠ [] := by
  intro empty
  have length := congrArg length empty
  simp [bytes] at length

theorem fromBuffer_exact (framed : Framed frameGetter)
    {buffer rest : List Byte} (done : fromBuffer frameGetter buffer = .ok (entry, rest)) :
    entry.frame = some entry.pageNum ∧ buffer = entry.bytes ++ rest := by
  obtain ⟨_, _, fetched, split⟩ := fromBuffer_eq_ok done
  have frame := framed _ _ fetched
  refine ⟨frame, ?_⟩
  rw [split, bytes, pageNumber, frame, getD_some]

theorem readable_iff (framed : Framed frameGetter) (entry : LogEntryHandler) :
    (∀ other, fromBuffer frameGetter (entry.bytes ++ other) = .ok (entry, other)) ↔
      entry.body.Fits ∧ entry.logged = entry ∧ frameGetter entry.pageNum = .ok entry.frame := by
  constructor
  · intro read
    obtain ⟨fits, same, fetched, _⟩ := fromBuffer_eq_ok (read [])
    exact ⟨fits, same, fetched⟩
  · rintro ⟨fits, same, fetched⟩ other
    rw [fromBuffer_bytes fits (framed _ _ fetched) fetched, same]

theorem NegativeSize.ne_nil {buffer : List Byte} (negative : NegativeSize frameGetter buffer) :
    buffer ≠ [] := by
  obtain ⟨operation, pageNum, _, rest, _, rfl, _⟩ := negative
  intro empty
  have length := congrArg length empty
  simp at length

def MeetsNegativeSize (frameGetter : PageNum → Except RC (Option PageNum)) (buffer : List Byte) :
    Prop :=
  ∃ (entries : List LogEntryHandler) (rest : List Byte),
    buffer = entries.flatMap bytes ++ rest ∧ NegativeSize frameGetter rest ∧
      ∀ entry ∈ entries, entry.body.Fits ∧ entry.logged = entry ∧
        frameGetter entry.pageNum = .ok entry.frame

/-- Entries are read back exactly if the sizes of their variable parts fit their fields. Any
buffer is read to its end, fails, or raises an exception; the last is so exactly if a negative
size is met, and entries that were read would be written as they were. -/
theorem index_log_codec_iff (framed : Framed frameGetter) :
    (∀ entries : List LogEntryHandler,
      (∀ entry ∈ entries, entry.frame = some entry.pageNum ∧
        frameGetter entry.pageNum = .ok entry.frame) →
      (fromBuffers frameGetter (entries.flatMap bytes) = some (.ok (entries.map logged)) ↔
        ∀ entry ∈ entries, entry.body.Fits)) ∧
      ∀ buffer, ∃ outcome, fromBuffers frameGetter buffer = some outcome ∧
        (outcome = .thrown ↔ MeetsNegativeSize frameGetter buffer) ∧
        ∀ entries, outcome = .ok entries →
          entries.flatMap bytes = buffer ∧ ∀ entry ∈ entries, entry.serialize = some entry.bytes := by
  have exact : ∀ buffer entry rest, fromBuffer frameGetter buffer = .ok (entry, rest) →
      buffer = entry.bytes ++ rest := fun _ _ _ done => (fromBuffer_exact framed done).2
  refine ⟨fun entries fetched => ⟨fun done entry member => ?_, fun fits => ?_⟩, fun buffer => ?_⟩
  · have read := many_forall (fun _ _ _ done => (fromBuffer_eq_ok done).1) done
      entry.logged (mem_map_of_mem member)
    rwa [logged, LogBody.fits_logged] at read
  · refine many_of_reads logged entries (fun entry member rest => ?_) bytes_ne_nil (Nat.le_refl _)
    exact fromBuffer_bytes (fits entry member) (fetched entry member).1 (fetched entry member).2 rest
  · obtain ⟨outcome, done⟩ := many_total exact bytes_ne_nil (Nat.le_refl buffer.length)
    refine ⟨outcome, done, ?_, ?_⟩
    · have again : ∀ buffer entry rest, fromBuffer frameGetter buffer = .ok (entry, rest) →
          ∀ other, fromBuffer frameGetter (entry.bytes ++ other) = .ok (entry, other) := by
        intro buffer entry rest read
        obtain ⟨fits, same, fetched, _⟩ := fromBuffer_eq_ok read
        exact (readable_iff framed entry).mpr ⟨fits, same, fetched⟩
      have thrown := many_thrown_iff exact again bytes_ne_nil (Nat.le_refl buffer.length)
      rw [← some.injEq, ← done, thrown]
      simp only [fromBuffer_eq_thrown, readable_iff framed, MeetsNegativeSize]
      refine exists₂_congr fun entries rest => and_congr_right fun _ => ?_
      exact ⟨And.right, fun found => ⟨found.1.ne_nil, found⟩⟩
    · rintro entries rfl
      refine ⟨many_exact exact done, fun entry member => ?_⟩
      have frame := many_forall (fun _ _ _ read => (fromBuffer_exact framed read).1) done entry member
      rw [serialize, frame, map_some]

def everyPage (pageNum : PageNum) : Except RC (Option PageNum) := .ok (some pageNum)

def twoEntries : List LogEntryHandler :=
  [⟨some 5, 5, .normalOperation .insert 1 1 [7, 8]⟩, ⟨some 6, 6, .leafSetNextPage 9 4⟩]

theorem index_log_codec_two_entries :
    Framed everyPage ∧
      fromBuffers everyPage (twoEntries.flatMap bytes) = some (.ok (twoEntries.map logged)) := by
  have framed : Framed everyPage := fun _ _ fetched => (Except.ok.inj fetched).symm
  exact ⟨framed, ((index_log_codec_iff framed).1 twoEntries (by decide)).mpr (by decide)⟩

/-- An insertion into page 0 whose number of bytes is `-1`. -/
theorem negative_size_throws :
    fromBuffers everyPage
      [8, 0, 0, 0, 0, 0, 0, 0, 0, 0, 0, 0, 0, 0, 0, 0, 255, 255, 255, 255] = some .thrown := by
  decide

end LogEntryHandler

end CsuDbms.IndexLogCodec
