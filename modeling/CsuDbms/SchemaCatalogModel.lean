import CsuDbms.TransitionSystem
import Mathlib

/-!
# The schema catalog and the files of a database

`SchemaCatalog`, the metadata side of `Table`, and `Db::create_table`,
`Db::init` with what it opens before and registers after recovery. A row of the
catalog is logged when it is inserted; whether it is in the data file as well
is a flag of its own, and so are the header pages of an index file. The header
page of the catalog's file lists the pages that are scanned. Recovery restores
the rows that are logged. The catalog table describes itself in rows with the
id 0, which loading skips; they are left out.
-/

namespace CsuDbms.SchemaCatalogModel

/-- The bytes of a name, without the closing zero. -/
abbrev Name := List UInt8

instance nameLawfulBEq : LawfulBEq Name := inferInstance

def isBlank (name : Name) : Bool :=
  name.all fun byte => byte = 32 || 9 ≤ byte && byte ≤ 13

def lowerCase (name : Name) : Name :=
  name.map fun byte => if 65 ≤ byte && byte ≤ 90 then byte + 32 else byte

inductive AttrType where
  | undefined
  | chars
  | ints
  | floats
  | vectors
  | booleans
  | dates
  deriving DecidableEq, Repr

inductive StorageFormat where
  | rowFormat
  | paxFormat
  deriving DecidableEq, Repr

structure FieldMeta where
  name : Name
  attrType : AttrType
  offset : Nat
  len : Nat
  visible : Bool
  nullable : Bool
  fieldId : Int
  deriving DecidableEq, Repr

structure IndexMeta where
  name : Name
  field : Name
  deriving DecidableEq, Repr

structure TableMeta where
  tableId : Nat
  name : Name
  fields : List FieldMeta
  primaryKeys : List Name
  indexes : List IndexMeta
  storageFormat : StorageFormat
  deriving DecidableEq, Repr

def TableMeta.field (table : TableMeta) (name : Name) : Option FieldMeta :=
  table.fields.find? fun field => lowerCase field.name = lowerCase name

structure AttrInfo where
  name : Name
  attrType : AttrType
  length : Nat
  nullable : Bool
  deriving DecidableEq, Repr

structure TableRequest where
  name : Name
  attributes : List AttrInfo
  primaryKeys : List Name
  storageFormat : StorageFormat
  deriving DecidableEq, Repr

def beginXidName : Name := [95, 95, 116, 114, 120, 95, 120, 105, 100, 95, 98, 101, 103, 105, 110]

def endXidName : Name := [95, 95, 116, 114, 120, 95, 120, 105, 100, 95, 101, 110, 100]

inductive TrxKit where
  | vacuous
  | mvcc
  deriving DecidableEq, Repr

/-- The fields of `trx_fields`, at the offsets that `TableMeta::init` gives them. -/
def trxFields : TrxKit → List FieldMeta
  | .vacuous => []
  | .mvcc =>
    [⟨beginXidName, .ints, 0, 4, false, true, -1⟩, ⟨endXidName, .ints, 4, 4, false, true, -2⟩]

/-- A number that an `int` takes for a negative one. -/
def isNegative (number : Nat) : Bool := 2147483648 ≤ number

/-- The loop of `TableMeta::init` over the attributes, with `FieldMeta::init`. Offsets and lengths
are `int`, so a sum can become negative, and is then refused as the offset of the next field. -/
def initFields (offset fieldId : Nat) : List AttrInfo → Option (List FieldMeta)
  | [] => some []
  | attr :: rest =>
    if isBlank attr.name || attr.attrType = .undefined || attr.length = 0
        || isNegative attr.length || isNegative offset then none
    else (initFields (offset + attr.length) (fieldId + 1) rest).map fun fields =>
      ⟨attr.name, attr.attrType, offset, attr.length, true, attr.nullable, fieldId⟩ :: fields

def TableMeta.init (kit : TrxKit) (tableId : Nat) (request : TableRequest) : Option TableMeta :=
  (initFields (4 * (trxFields kit).length) 0 request.attributes).map fun fields =>
    { tableId
      name := request.name
      fields := trxFields kit ++ fields
      primaryKeys := request.primaryKeys
      indexes := []
      storageFormat := request.storageFormat }

inductive CatalogRow where
  | column (tableId ordinal : Nat) (field : FieldMeta) (primaryOrdinal : Option Nat)
  | index (tableId : Nat) (name field : Name)
  | table (tableId : Nat) (name : Name) (storageFormat : StorageFormat)
  deriving DecidableEq, Repr

def CatalogRow.tableId : CatalogRow → Nat
  | .column tableId _ _ _ => tableId
  | .index tableId _ _ => tableId
  | .table tableId _ _ => tableId

/-- A name as it comes back from a `CHARS(128)` field. -/
def catalogName (name : Name) : Name := name.take 128

/-- The row of the field at the position, with the first primary key of its name. -/
def columnRow (table : TableMeta) (field : FieldMeta) (ordinal : Nat) : CatalogRow :=
  .column table.tableId ordinal { field with name := catalogName field.name }
    (table.primaryKeys.idxOf? field.name)

def indexRow (table : TableMeta) (index : IndexMeta) : CatalogRow :=
  .index table.tableId (catalogName index.name) (catalogName index.field)

def tableRow (table : TableMeta) : CatalogRow :=
  .table table.tableId (catalogName table.name) table.storageFormat

/-- The rows that `SchemaCatalog::register_table` inserts, in this order. -/
def registerRows (table : TableMeta) : List CatalogRow :=
  table.fields.zipIdx.map (fun entry => columnRow table entry.1 entry.2) ++
    table.indexes.map (indexRow table) ++ [tableRow table]

structure PendingTable where
  heading : Option (Name × StorageFormat)
  fields : List (Nat × FieldMeta)
  primaryKeys : List Name
  indexes : List (Name × Name)

def PendingTable.empty : PendingTable := ⟨none, [], [], []⟩

/-- `primary_keys[ordinal] = name`, after a resize if it is too short. -/
def setPrimaryKey (keys : List Name) (ordinal : Nat) (name : Name) : List Name :=
  (keys ++ List.replicate (ordinal + 1 - keys.length) []).set ordinal name

/-- One row in the scan of `SchemaCatalog::load_tables`. -/
def PendingTable.add (pending : PendingTable) : CatalogRow → PendingTable
  | .table _ name format => { pending with heading := some (name, format) }
  | .column _ ordinal field primaryOrdinal =>
    { pending with
      fields := pending.fields ++ [(ordinal, field)]
      primaryKeys := match primaryOrdinal with
        | none => pending.primaryKeys
        | some key => setPrimaryKey pending.primaryKeys key field.name }
  | .index _ name field => { pending with indexes := pending.indexes ++ [(name, field)] }

def pendingTable (rows : List CatalogRow) (tableId : Nat) : PendingTable :=
  (rows.filter fun row => row.tableId = tableId).foldl PendingTable.add .empty

/-- An index of the catalog, whose field has to be there. -/
def loadIndex (table : TableMeta) (index : Name × Name) : Option IndexMeta :=
  (table.field index.2).bind fun field =>
    if isBlank index.1 then none else some ⟨index.1, field.name⟩

/-- The `TableMeta` of a pending table; none is the failure of `load_tables`. -/
def finishTable (tableId : Nat) (pending : PendingTable) : Option TableMeta :=
  match pending.heading with
  | none => none
  | some (name, format) =>
    let fields := pending.fields.insertionSort (fun left right => left.1 ≤ right.1)
    let table : TableMeta :=
      { tableId
        name
        fields := fields.map Prod.snd
        primaryKeys := pending.primaryKeys
        indexes := []
        storageFormat := format }
    if isBlank name || table.fields.isEmpty then none
    else (pending.indexes.mapM (loadIndex table)).map fun indexes => { table with indexes }

/-- `SchemaCatalog::load_tables`: ids without a table row are passed over. -/
def loadTables (rows : List CatalogRow) : Option (List TableMeta) :=
  ((rows.map CatalogRow.tableId).dedup.filter fun tableId =>
    (pendingTable rows tableId).heading.isSome && tableId ≠ 0).mapM fun tableId =>
      finishTable tableId (pendingTable rows tableId)

/-- An index file and whether its header pages, of the file and of the tree, are in it. Creating
an index syncs them into the double-write buffer only. -/
structure IndexFile where
  name : Name
  hasHeader : Bool
  deriving DecidableEq, Repr

/-- The name of `table_index_file`, without the suffix. -/
def tableIndexFile (table : TableMeta) (index : Name) : Name := table.name ++ [45] ++ index

structure Memory where
  openedTables : List TableMeta
  nextTableId : Nat
  deriving DecidableEq, Repr

/-- `metaFiles` are the `.table` files, without content until it is written. No memory
means that the last `Db::init` failed. `created` records the tables that were created. -/
structure Db where
  kit : TrxKit
  /-- The page of the catalog's file that a row is put on, by its number. -/
  pageOf : Nat → Nat
  rows : List (CatalogRow × Bool)
  /-- How many pages the header page in the catalog's file lists, and how many are in the file. -/
  listedPages : Nat
  filePages : Nat
  metaFiles : List (Name × Option TableMeta)
  dataFiles : List Name
  indexFiles : List IndexFile
  memory : Option Memory
  created : List TableMeta

def Db.fresh (kit : TrxKit) (pageOf : Nat → Nat) : Db :=
  ⟨kit, pageOf, [], 1, 1, [], [], [], some ⟨[], 1⟩, []⟩

def Db.catalogRows (db : Db) : List CatalogRow := db.rows.map Prod.fst

/-- The pages of the catalog: the header page, that of the catalog's own rows, and the others. -/
def Db.pageCount (db : Db) : Nat :=
  max 2 ((Finset.range db.rows.length).sup fun row => db.pageOf row + 1)

/-- The rows that a scan of the file finds. -/
def Db.storedRows (db : Db) : List CatalogRow :=
  (db.rows.zipIdx.filter fun entry => entry.1.2 && decide (db.pageOf entry.2 < db.listedPages)).map
    fun entry => entry.1.1

def Db.appendRows (db : Db) (rows : List CatalogRow) : Db :=
  { db with rows := db.rows ++ rows.map fun row => (row, false) }

def insertTable (tables : List TableMeta) (table : TableMeta) : List TableMeta :=
  tables.filter (fun other => other.name ≠ table.name) ++ [table]

def catalogTableName : Name := [95, 95, 99, 115, 117, 100, 98, 95, 99, 97, 116, 97, 108, 111, 103]

/-- `TableMeta::deserialize` of what was serialized. The vector of the primary keys is made
with their number and then appended to. -/
def deserializeMeta (table : TableMeta) : Option TableMeta :=
  if table.fields.isEmpty then none
  else
    let fields := table.fields.insertionSort fun left right => left.offset ≤ right.offset
    let bare : TableMeta := { table with fields, indexes := [] }
    (table.indexes.mapM fun index => loadIndex bare (index.name, index.field)).map fun indexes =>
      { bare with
        indexes
        primaryKeys := List.replicate table.primaryKeys.length [] ++ table.primaryKeys }

structure Opening where
  tables : List TableMeta
  indexFiles : List Name
  nextTableId : Nat
  legacyTables : List TableMeta

/-- One index in `HeapTableEngine::open`. A file is opened once, and without its header page
the tree in it cannot be opened. -/
def openIndex (db : Db) (table : TableMeta) (opened : List Name) (index : IndexMeta) :
    Option (List Name) :=
  if (table.field index.field).isSome
      ∧ tableIndexFile table index.name ∉ opened
      ∧ ⟨tableIndexFile table index.name, true⟩ ∈ db.indexFiles then
    some (opened ++ [tableIndexFile table index.name])
  else none

def openTable (db : Db) (opening : Opening) (table : TableMeta) : Option Opening :=
  (table.indexes.foldlM (openIndex db table) opening.indexFiles).map fun indexFiles =>
    { opening with
      tables := insertTable opening.tables table
      indexFiles
      nextTableId := max opening.nextTableId (table.tableId + 1) }

/-- One `.table` file in `Db::open_all_tables`. -/
def openLegacyTable (db : Db) (opening : Opening) (content : Option TableMeta) : Option Opening :=
  (content.bind deserializeMeta).bind fun table =>
    if table.name = catalogTableName ∨ table.name ∈ opening.tables.map TableMeta.name then
      some opening
    else (openTable db opening table).map fun opened =>
      { opened with legacyTables := opened.legacyTables ++ [table] }

/-- `Db::open_all_tables`, on what the data files hold. The scan of the catalog fails at a page
that is listed and not in the file. -/
def openAllTables (db : Db) : Option Opening :=
  if db.filePages < db.listedPages then none
  else (loadTables db.storedRows).bind fun tables =>
    (tables.foldlM (openTable db) ⟨[], [], 1, []⟩).bind fun opening =>
      (db.metaFiles.map Prod.snd).foldlM (openLegacyTable db) opening

/-- `Db::init`. Replay restores the logged rows and fails at the log of an index file that
was not opened; then the legacy tables are registered. -/
def Db.init (db : Db) : Db :=
  match openAllTables db with
  | none => { db with memory := none }
  | some opening =>
    if ∀ file ∈ db.indexFiles, file.name ∈ opening.indexFiles then
      { db.appendRows (opening.legacyTables.flatMap registerRows) with
        memory := some ⟨opening.tables, opening.nextTableId⟩ }
    else { db with memory := none }

def Db.shutdown (db : Db) : Db :=
  { db with
    rows := db.rows.map fun row => (row.1, true)
    listedPages := db.pageCount
    filePages := max db.filePages db.pageCount
    indexFiles := db.indexFiles.map fun file => { file with hasHeader := true } }

/-- What may fail: opening the metadata file, opening it again to write, creating the data file,
writing its header, or inserting a row of the catalog. -/
inductive Fault where
  | openMeta
  | writeMeta
  | createData
  | writeData
  | registerRow (position : Nat)
  deriving DecidableEq, Repr

def Db.addTable (db : Db) (table : TableMeta) : Db :=
  { db.appendRows (registerRows table) with
    metaFiles := db.metaFiles ++ [(table.name, some table)]
    dataFiles := db.dataFiles ++ [table.name]
    memory := db.memory.map fun memory =>
      { memory with openedTables := insertTable memory.openedTables table }
    created := db.created ++ [table] }

/-- The data file and the registration of a table whose metadata file is written. If a row
cannot be inserted, both files are removed and the rows before it stay. -/
def createData (db : Db) (table : TableMeta) (fault : Option Fault) : Bool × Db :=
  let written := { db with metaFiles := db.metaFiles ++ [(table.name, some table)] }
  if table.name ∈ db.dataFiles then (false, written)
  else
    match fault with
    | some .createData => (false, written)
    | some .writeData => (false, { written with dataFiles := db.dataFiles ++ [table.name] })
    | some (.registerRow position) =>
      if position < (registerRows table).length then
        (false, db.appendRows ((registerRows table).take position))
      else (true, db.addTable table)
    | _ => (true, db.addTable table)

/-- `Table::create` and the registration; the flag is whether they succeed. -/
def createFiles (db : Db) (tableId : Nat) (request : TableRequest) (fault : Option Fault) :
    Bool × Db :=
  if isBlank request.name ∨ request.attributes = [] then (false, db)
  else if request.name ∈ db.metaFiles.map Prod.fst ∨ fault = some .openMeta then (false, db)
  else
    let empty := { db with metaFiles := db.metaFiles ++ [(request.name, none)] }
    match TableMeta.init db.kit tableId request with
    | none => (false, empty)
    | some table => if fault = some .writeMeta then (false, empty) else createData db table fault

/-- `Db::create_table`. The id is taken before the table is created. -/
def createTable (db : Db) (request : TableRequest) (fault : Option Fault) : Bool × Db :=
  match db.memory with
  | none => (false, db)
  | some memory =>
    if request.name = catalogTableName
        ∨ request.name ∈ memory.openedTables.map TableMeta.name then (false, db)
    else createFiles
      { db with memory := some { memory with nextTableId := memory.nextTableId + 1 } }
      memory.nextTableId request fault

def findTable (tables : List TableMeta) (name : Name) : Option TableMeta :=
  (tables.find? fun table => table.name = name).or
    (tables.find? fun table => lowerCase table.name = lowerCase name)

def TableMeta.addIndex (table : TableMeta) (index : IndexMeta) : TableMeta :=
  { table with indexes := table.indexes ++ [index] }

def replaceMeta (files : List (Name × Option TableMeta)) (table : TableMeta) :
    List (Name × Option TableMeta) :=
  files.filter (fun file => file.1 ≠ table.name) ++ [(table.name, some table)]

/-- The file, the metadata and the row of a new index on the table. -/
def Db.addIndex (db : Db) (table : TableMeta) (index : IndexMeta) : Db :=
  { db.appendRows [indexRow table index] with
    metaFiles := replaceMeta db.metaFiles (table.addIndex index)
    indexFiles := db.indexFiles ++ [⟨tableIndexFile table index.name, false⟩]
    memory := db.memory.map fun memory =>
      { memory with openedTables := memory.openedTables.map fun other =>
          if other.name = table.name then other.addIndex index else other }
    created := db.created.map fun other =>
      if other.name = table.name then other.addIndex index else other }

/-- A `CREATE INDEX` that succeeds: the checks of `CreateIndexStmt` and
`HeapTableEngine::create_index`, then what they change. -/
def createIndex (db : Db) (tableName indexName attributeName : Name) : Option Db :=
  db.memory.bind fun memory =>
    (findTable memory.openedTables tableName).bind fun table =>
      (table.field attributeName).bind fun field =>
        if isBlank indexName ∨ indexName ∈ table.indexes.map IndexMeta.name
            ∨ tableIndexFile table indexName ∈ db.indexFiles.map IndexFile.name then none
        else some (db.addIndex table ⟨indexName, field.name⟩)

/-- `writePage` and `writeCatalogHeader` write a page and the header page of the catalog,
`writeHeader` writes the header pages of an index file. -/
inductive Action where
  | createTable (request : TableRequest) (fault : Option Fault)
  | createIndex (tableName indexName attributeName : Name)
  | writePage (page : Nat)
  | writeCatalogHeader
  | writeHeader (file : Name)
  | restart
  | crash
  deriving DecidableEq, Repr

def Db.writePage (db : Db) (page : Nat) : Db :=
  { db with
    rows := db.rows.mapIdx fun position row => (row.1, row.2 || db.pageOf position = page)
    filePages := max db.filePages (page + 1) }

def Db.writeCatalogHeader (db : Db) : Db := { db with listedPages := db.pageCount }

def Db.writeHeader (db : Db) (name : Name) : Db :=
  { db with indexFiles := db.indexFiles.map fun file =>
      { file with hasHeader := file.hasHeader || file.name = name } }

/-- `next_table_id_++` is defined. -/
def Db.idFits (db : Db) : Bool := db.memory.any fun memory => memory.nextTableId < 2147483647

/-- A database that is not open can only be opened again, with what is in its files. -/
def step (db : Db) : Action → Option Db
  | .createTable request fault =>
    if db.idFits then some (createTable db request fault).2 else none
  | .createIndex tableName indexName attributeName =>
    createIndex db tableName indexName attributeName
  | .writePage page =>
    if db.memory.isSome ∧ page < db.pageCount then some (db.writePage page) else none
  | .writeCatalogHeader => if db.memory.isSome then some db.writeCatalogHeader else none
  | .writeHeader file => if db.memory.isSome then some (db.writeHeader file) else none
  | .restart => if db.memory.isSome then some db.shutdown.init else none
  | .crash => some db.init

/-- The open tables are those that were created, as they were created. -/
def OpensCreated (db : Db) : Prop :=
  ∃ memory, db.memory = some memory ∧ ∀ table, table ∈ memory.openedTables ↔ table ∈ db.created

instance (db : Db) : Decidable (OpensCreated db) :=
  decidable_of_iff
    (db.memory.any fun memory => memory.openedTables ⊆ db.created ∧ db.created ⊆ memory.openedTables)
    (by
      rw [Option.any_eq_true]
      refine exists_congr fun memory => and_congr_right fun _ => ?_
      rw [decide_eq_true_iff]
      exact ⟨fun ⟨left, right⟩ _ => ⟨fun present => left present, fun present => right present⟩,
        fun same => ⟨fun table => (same table).mp, fun table => (same table).mpr⟩⟩)

end CsuDbms.SchemaCatalogModel
