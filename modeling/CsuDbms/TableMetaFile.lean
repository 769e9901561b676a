import CsuDbms.SchemaDurability

/-!
# The metadata file of a table

`TableMeta::serialize` and `TableMeta::deserialize`, on all members of a `TableMeta`. The JSON
library is taken as correct, so that the members of a document are read as they were written.
-/

namespace CsuDbms.SchemaCatalogModel

open ListTraversal List Option

inductive StorageEngine where
  | heap
  | lsm
  | unknownEngine
  deriving DecidableEq, Repr

/-- A `TableMeta` with the members that the catalog does not keep. -/
structure FileMeta extends TableMeta where
  trxFields : List FieldMeta
  storageEngine : StorageEngine
  recordSize : Nat
  nullBitmapOffset : Nat
  deriving DecidableEq, Repr

structure FieldJson where
  name : Name
  type : String
  offset : Nat
  len : Nat
  visible : Bool
  fieldId : Int
  nullable : Bool

structure TableJson where
  tableId : Nat
  tableName : Name
  storageFormat : StorageFormat
  storageEngine : StorageEngine
  fields : List FieldJson
  indexes : List IndexMeta
  primaryKeys : List Name

def attrTypeName : List (AttrType × String) :=
  [(.undefined, "undefined"), (.chars, "chars"), (.ints, "ints"), (.floats, "floats"),
    (.vectors, "vectors"), (.booleans, "booleans"), (.dates, "dates")]

def attrTypeToString (type : AttrType) : String := (attrTypeName.lookup type).getD "unknown"

def attrTypeFromString (text : String) : AttrType :=
  ((attrTypeName.find? fun entry => entry.2.toLower = text.toLower).map Prod.fst).getD .undefined

def FieldMeta.toJson (field : FieldMeta) : FieldJson :=
  ⟨field.name, attrTypeToString field.attrType, field.offset, field.len, field.visible,
    field.fieldId, field.nullable⟩

/-- `FieldMeta::from_json`, with the checks of `FieldMeta::init`. -/
def FieldMeta.fromJson (json : FieldJson) : Option FieldMeta :=
  let type := attrTypeFromString json.type
  if isBlank json.name || type = .undefined || json.len = 0 then none
  else some ⟨json.name, type, json.offset, json.len, json.visible, json.nullable, json.fieldId⟩

def FileMeta.serialize (table : FileMeta) : TableJson where
  tableId := table.tableId
  tableName := table.name
  storageFormat := table.storageFormat
  storageEngine := table.storageEngine
  fields := table.fields.map FieldMeta.toJson
  indexes := table.indexes
  primaryKeys := table.primaryKeys

/-- `TableMeta::deserialize`: sizes and hidden fields are found again in the sorted fields. -/
def TableJson.deserialize (document : TableJson) : Option FileMeta :=
  (document.fields.mapM FieldMeta.fromJson).bind fun fields =>
    (deserializeMeta ⟨document.tableId, document.tableName, fields, document.primaryKeys,
      document.indexes, document.storageFormat⟩).map fun table =>
        let dataEnd := (table.fields.getLast?.map fun last => last.offset + last.len).getD 0 -
          (table.fields.head?.map FieldMeta.offset).getD 0
        { table with
          trxFields := table.fields.filter fun field => !field.visible
          storageEngine := document.storageEngine
          recordSize := dataEnd + (fields.length + 7) / 8
          nullBitmapOffset := dataEnd }

/-- `TableMeta::init`. The fields of the transaction kit are kept as the kit has them, both at
offset 0. -/
def FileMeta.init (kit : TrxKit) (engine : StorageEngine) (tableId : Nat)
    (request : TableRequest) : Option FileMeta :=
  if isBlank request.name || request.attributes.isEmpty then none
  else (TableMeta.init kit tableId request).map fun table =>
    let fieldOffset := 4 * (SchemaCatalogModel.trxFields kit).length +
      (request.attributes.map AttrInfo.length).sum
    { table with
      trxFields := (SchemaCatalogModel.trxFields kit).map fun field => { field with offset := 0 }
      storageEngine := engine
      recordSize := fieldOffset + (table.fields.length + 7) / 8
      nullBitmapOffset := fieldOffset }

/-- What `CREATE TABLE` and then `CREATE INDEX` make. -/
inductive Built (kit : TrxKit) : FileMeta → Prop
  | init {engine : StorageEngine} {tableId : Nat} {request : TableRequest} {table : FileMeta}
      (made : FileMeta.init kit engine tableId request = some table) : Built kit table
  | createIndex {table : FileMeta} (built : Built kit table) {indexName attributeName : Name}
      {field : FieldMeta} (found : table.field attributeName = some field)
      (visible : isBlank indexName = false) :
      Built kit { table with indexes := table.indexes ++ [⟨indexName, field.name⟩] }

theorem from_json_to_json {field : FieldMeta} (named : isBlank field.name = false)
    (typed : field.attrType ≠ .undefined) (sized : field.len ≠ 0) :
    FieldMeta.fromJson field.toJson = some field := by
  have type : attrTypeFromString (attrTypeToString field.attrType) = field.attrType := by
    cases field.attrType <;> decide +kernel
  simp [FieldMeta.fromJson, FieldMeta.toJson, type, named, typed, sized]

section

variable {attributes : List AttrInfo} {offset fieldId : Nat} {fields : List FieldMeta}

theorem init_fields_read (made : initFields offset fieldId attributes = some fields) :
    ∀ field ∈ fields, FieldMeta.fromJson field.toJson = some field ∧ field.visible = true := by
  induction attributes generalizing offset fieldId fields with
  | nil =>
    cases made
    simp
  | cons attr rest ih =>
    simp only [initFields, ite_none_left_eq_some, map_eq_some_iff, Bool.or_eq_true, not_or,
      Bool.not_eq_true, decide_eq_true_eq] at made
    obtain ⟨⟨⟨⟨⟨named, typed⟩, sized⟩, _⟩, _⟩, later, made, rfl⟩ := made
    exact forall_mem_cons.mpr ⟨⟨from_json_to_json named typed sized, rfl⟩, ih made⟩

theorem init_fields_end (made : initFields offset fieldId attributes = some fields)
    (present : attributes ≠ []) :
    ∃ first last, fields.head? = some first ∧ fields.getLast? = some last ∧
      first.offset = offset ∧
      last.offset + last.len = offset + (attributes.map AttrInfo.length).sum := by
  induction attributes generalizing offset fieldId fields with
  | nil => exact absurd rfl present
  | cons attr rest ih =>
    simp only [initFields, ite_none_left_eq_some, map_eq_some_iff] at made
    obtain ⟨_, later, made, rfl⟩ := made
    cases rest with
    | nil =>
      cases made
      exact ⟨_, _, rfl, rfl, rfl, by simp⟩
    | cons next rest =>
      obtain ⟨_, last, _, found, _, ends⟩ := ih made (by simp)
      exact ⟨_, last, rfl, by simp [getLast?_cons, found], rfl, by simpa [Nat.add_assoc] using ends⟩

end

structure Laid (kit : TrxKit) (table : FileMeta) : Prop where
  columns : ∃ attributes columns, attributes ≠ [] ∧
    initFields (4 * (trxFields kit).length) 0 attributes = some columns ∧
    table.fields = trxFields kit ++ columns ∧ table.nullBitmapOffset =
      4 * (trxFields kit).length + (attributes.map AttrInfo.length).sum
  size : table.recordSize = table.nullBitmapOffset + (table.fields.length + 7) / 8
  trx : table.trxFields = (trxFields kit).map fun field => { field with offset := 0 }
  indexed : ∀ index ∈ table.indexes, isBlank index.name = false ∧
    ∃ field, table.field index.field = some field ∧ field.name = index.field

variable {kit : TrxKit} {table : FileMeta}

theorem laid_of_built (built : Built kit table) : Laid kit table := by
  induction built with
  | init made =>
    obtain ⟨valid, made⟩ := ite_none_left_eq_some.mp made
    obtain ⟨_, started, rfl⟩ := map_eq_some_iff.mp made
    obtain ⟨columns, laid, rfl⟩ := map_eq_some_iff.mp started
    exact ⟨⟨_, columns, by simp_all, laid, rfl, rfl⟩, rfl, rfl, by simp⟩
  | createIndex built found visible laid =>
    refine ⟨laid.columns, laid.size, laid.trx, fun index listed => ?_⟩
    rcases mem_append.mp listed with listed | last
    · exact laid.indexed index listed
    · rw [mem_singleton.mp last]
      exact ⟨visible, _, field_found_again found, rfl⟩

/-- The file gives everything back but the offsets in `trx_fields_` and the primary keys, which
come behind as many empty names. -/
theorem deserialize_serialize (built : Built kit table) :
    table.serialize.deserialize = some { table with
      trxFields := trxFields kit
      primaryKeys := replicate table.primaryKeys.length [] ++ table.primaryKeys } := by
  obtain ⟨⟨attributes, columns, present, made, fields, offset⟩, size, _, indexed⟩ :=
    laid_of_built built
  have read := init_fields_read made
  obtain ⟨first, last, front, back, starts, ends⟩ := init_fields_end made present
  obtain ⟨above, ordered⟩ := init_fields_offsets made
  obtain ⟨below, _, trxOrdered⟩ := trx_fields_offsets kit
  have sorted : table.fields.Pairwise fun left right => left.offset ≤ right.offset := by
    rw [fields]
    refine pairwise_append.mpr ⟨trxOrdered, ordered, ?_⟩
    exact fun left trx right column => (below left trx).trans (above right column)
  have texts : (table.fields.map FieldMeta.toJson).mapM FieldMeta.fromJson = some table.fields := by
    have each : ∀ field ∈ table.fields, FieldMeta.fromJson field.toJson = some (id field) := by
      rw [fields]
      refine forall_mem_append.mpr ⟨?_, fun field column => (read field column).1⟩
      cases kit <;> decide +kernel
    rw [mapM_map]
    exact (map_m_of_some each).trans (congrArg some (List.map_id _))
  have hidden : (table.fields.filter fun field => !field.visible) = trxFields kit := by
    have shown : (columns.filter fun field => !field.visible) = [] :=
      filter_eq_nil_iff.mpr fun field column => by simp [(read field column).2]
    rw [fields, filter_append, shown, append_nil]
    cases kit <;> rfl
  have dataStart : (table.fields.head?.map FieldMeta.offset).getD 0 = 0 := by
    rw [fields]
    cases kit with
    | vacuous => simpa [trxFields, front] using starts
    | mvcc => rfl
  have dataEnd : (table.fields.getLast?.map fun last => last.offset + last.len).getD 0 =
      table.nullBitmapOffset := by
    rw [fields, getLast?_append, back, offset]
    exact ends
  have written := deserialize_meta_eq (by rintro none; simp_all) sorted indexed
  simp only [TableJson.deserialize, FileMeta.serialize, texts, bind_some, written, map_some, hidden,
    dataStart, dataEnd, size, Nat.sub_zero]

theorem read_back_iff (built : Built kit table) :
    table.serialize.deserialize = some table ↔ kit = .vacuous ∧ table.primaryKeys = [] := by
  have trx := (laid_of_built built).trx
  have keys : replicate table.primaryKeys.length [] ++ table.primaryKeys = table.primaryKeys ↔
      table.primaryKeys = [] := by
    rw [append_left_eq_self, replicate_eq_nil_iff, length_eq_zero_iff]
  have kits : trxFields kit = table.trxFields ↔ kit = .vacuous := by
    rw [trx]
    cases kit <;> decide
  rw [deserialize_serialize built, some.injEq, ← keys, ← kits]
  constructor
  · intro same
    exact ⟨congrArg FileMeta.trxFields same, congrArg (·.primaryKeys) same⟩
  · rintro ⟨sameTrx, sameKeys⟩
    rw [sameTrx, sameKeys]

def keylessTable : TableRequest := { oneColumnTable with primaryKeys := [] }

theorem keyless_read_back : ∃ table, FileMeta.init .vacuous .heap 1 keylessTable = some table ∧
    table.serialize.deserialize = some table := by
  have made : FileMeta.init .vacuous .heap 1 keylessTable = some _ := rfl
  exact ⟨_, made, (read_back_iff (.init made)).mpr ⟨rfl, rfl⟩⟩

/-- `CREATE TABLE t(a INT, PRIMARY KEY(a))`, which is read with the keys `""` and `a`. -/
theorem key_not_read_back : ∃ table, FileMeta.init .vacuous .heap 1 oneColumnTable = some table ∧
    table.serialize.deserialize ≠ some table :=
  ⟨_, rfl, by decide +kernel⟩

end CsuDbms.SchemaCatalogModel
