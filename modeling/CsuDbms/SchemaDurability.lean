import CsuDbms.SchemaCatalogRows

/-!
# Tables and indexes over restarts

As long as every page of the catalog with its header page and the header pages
of every index are in their files when the system crashes, the tables that are
open are those that were created. Otherwise `Db::init` opens what the data files hold before
the log is replayed, takes the rest for legacy tables and registers them again.
-/

namespace CsuDbms.SchemaCatalogModel

open ListTraversal TransitionSystem List Option Function TableMeta

def indexFilesOf (table : TableMeta) : List Name :=
  table.indexes.map fun index => tableIndexFile table index.name

variable {db : Db} {table : TableMeta}

theorem open_indexes (indexes : List IndexMeta) (opened : List Name)
    (has_field : ∀ index ∈ indexes, (table.field index.field).isSome)
    (distinct : (opened ++ indexes.map fun index => tableIndexFile table index.name).Nodup)
    (headers : ∀ index ∈ indexes, ⟨tableIndexFile table index.name, true⟩ ∈ db.indexFiles) :
    indexes.foldlM (openIndex db table) opened
      = some (opened ++ indexes.map fun index => tableIndexFile table index.name) := by
  induction indexes generalizing opened with
  | nil => simp
  | cons index rest ih =>
    rw [map_cons, append_cons] at distinct
    have unopened : tableIndexFile table index.name ∉ opened := by
      have head_distinct := distinct.of_append_left
      rw [nodup_append'] at head_distinct
      exact fun present => head_distinct.2.2 present (by simp)
    have opens : openIndex db table opened index
        = some (opened ++ [tableIndexFile table index.name]) :=
      if_pos ⟨has_field index (by simp), unopened, headers index (by simp)⟩
    rw [foldlM_cons, opens]
    refine (ih _ ?_ distinct ?_).trans ?_
    · exact fun other present => has_field other (by simp [present])
    · exact fun other present => headers other (by simp [present])
    · simp

variable {tables : List TableMeta}

theorem insert_table_new
    (new : table.name ∉ tables.map name) : insertTable tables table = tables ++
    [table] := by
  have kept : tables.filter (fun other => other.name ≠ table.name) = tables := by
    refine filter_eq_self.mpr fun other present => ?_
    exact decide_eq_true fun same => new (mem_map.mpr ⟨other, present, same⟩)
  rw [insertTable, kept]

structure Openable (db : Db) (tables : List TableMeta) : Prop where
  names_distinct : (tables.map name).Nodup
  files_distinct : (tables.flatMap indexFilesOf).Nodup
  has_field : ∀ table ∈ tables, ∀ index ∈ table.indexes, (table.field index.field).isSome
  headers : ∀ table ∈ tables, ∀ file ∈ indexFilesOf table, ⟨file, true⟩ ∈ db.indexFiles

theorem openable_perm {others : List TableMeta} (same : tables.Perm others)
    (openable : Openable db others) : Openable db tables where
  names_distinct := (same.map _).nodup_iff.mpr openable.names_distinct
  files_distinct := (same.flatMap_right _).nodup_iff.mpr openable.files_distinct
  has_field table present := openable.has_field table (same.mem_iff.mp present)
  headers table present := openable.headers table (same.mem_iff.mp present)

def nextIdAfter (tables : List TableMeta) (nextTableId : Nat) : Nat :=
  tables.foldl (fun next table => max next (table.tableId + 1)) nextTableId

theorem open_tables (db : Db) (tables : List TableMeta) (opening : Opening)
    (names_distinct : ((opening.tables ++ tables).map name).Nodup)
    (files_distinct : (opening.indexFiles ++ tables.flatMap indexFilesOf).Nodup)
    (has_field : ∀ table ∈ tables, ∀ index ∈ table.indexes, (table.field index.field).isSome)
    (headers : ∀ table ∈ tables, ∀ file ∈ indexFilesOf table, ⟨file, true⟩ ∈ db.indexFiles) :
    tables.foldlM (openTable db) opening = some
      { opening with
        tables := opening.tables ++ tables
        indexFiles := opening.indexFiles ++ tables.flatMap indexFilesOf
        nextTableId := nextIdAfter tables opening.nextTableId } := by
  induction tables generalizing opening with
  | nil => simp [nextIdAfter]
  | cons table rest ih =>
    rw [append_cons] at names_distinct
    rw [flatMap_cons, ← append_assoc] at files_distinct
    have new : table.name ∉ opening.tables.map name := by
      rw [map_append] at names_distinct
      have head_distinct := names_distinct.of_append_left
      rw [map_append, nodup_append'] at head_distinct
      exact fun present => head_distinct.2.2 present (by simp)
    have opens : openTable db opening table = some
        { opening with
          tables := opening.tables ++ [table]
          indexFiles := opening.indexFiles ++ indexFilesOf table
          nextTableId := max opening.nextTableId (table.tableId + 1) } := by
      have files : table.indexes.foldlM (openIndex db table) opening.indexFiles
          = some (opening.indexFiles ++ indexFilesOf table) :=
        open_indexes table.indexes opening.indexFiles (has_field table (by simp))
          files_distinct.of_append_left fun index present =>
            headers table (by simp) _ (mem_map.mpr ⟨index, present, rfl⟩)
      rw [openTable, files, insert_table_new new]
      rfl
    rw [foldlM_cons, opens]
    refine (ih _ names_distinct files_distinct ?_ ?_).trans ?_
    · exact fun other present => has_field other (by simp [present])
    · exact fun other present => headers other (by simp [present])
    · simp [nextIdAfter]

theorem next_id_above (tables : List TableMeta) (nextTableId : Nat) :
    nextTableId ≤ nextIdAfter tables nextTableId ∧
      ∀ table ∈ tables, table.tableId < nextIdAfter tables nextTableId := by
  induction tables generalizing nextTableId with
  | nil => simp [nextIdAfter]
  | cons table rest ih =>
    obtain ⟨grows, above⟩ := ih (max nextTableId (table.tableId + 1))
    have unfolded : nextIdAfter (table :: rest) nextTableId
        = nextIdAfter rest (max nextTableId (table.tableId + 1)) := rfl
    rw [unfolded]
    exact ⟨by omega, forall_mem_cons.mpr ⟨by omega, above⟩⟩

theorem next_id_least {nextTableId bound : Nat}
    (first : nextTableId ≤ bound) (below : ∀ table ∈ tables, table.tableId < bound) :
    nextIdAfter tables nextTableId ≤ bound := by
  induction tables generalizing nextTableId with
  | nil => exact first
  | cons table rest ih =>
    have here := below table (by simp)
    exact ih (Nat.max_le.mpr ⟨first, here⟩) fun other present => below other (by simp [present])

theorem deserialize_meta_eq (present : table.fields ≠ [])
    (ordered : table.fields.Pairwise fun left right => left.offset ≤ right.offset)
    (indexed : ∀ index ∈ table.indexes, isBlank index.name = false ∧
      ∃ field, table.field index.field = some field ∧ field.name = index.field) :
    deserializeMeta table = some { table with
      primaryKeys := replicate table.primaryKeys.length [] ++ table.primaryKeys } := by
  have indexes : table.indexes.mapM (fun index =>
      loadIndex { table with indexes := [] } (index.name, index.field)) = some table.indexes := by
    have each : ∀ index ∈ table.indexes,
        loadIndex { table with indexes := [] } (index.name, index.field) = some (id index) := by
      intro index present
      obtain ⟨visible, field, found, named⟩ := indexed index present
      exact load_index_eq visible found named
    exact (map_m_of_some each).trans (congrArg some (map_id _))
  simp only [deserializeMeta, isEmpty_eq_false_iff.mpr present, Bool.false_eq_true, if_false,
    ordered.insertionSort_eq, indexes, map_some]

theorem skip_legacy_tables (db : Db) (contents : List (Option TableMeta)) (opening : Opening)
    (known : ∀ content ∈ contents, ∃ table, content = some table ∧ WellFormed table ∧
      table.name ∈ opening.tables.map name) :
    contents.foldlM (openLegacyTable db) opening = some opening := by
  induction contents with
  | nil => rfl
  | cons content rest ih =>
    obtain ⟨table, rfl, formed, opened⟩ := known content (by simp)
    have read := deserialize_meta_eq formed.fields_present formed.offsets_ordered
      fun index present => ⟨(formed.indexes_fit index present).2,
        formed.indexes_have_field index present⟩
    have skips : openLegacyTable db opening (some table) = some opening := by
      simp only [openLegacyTable, bind_some, read]
      exact if_pos (.inr opened)
    rw [foldlM_cons, skips]
    exact ih fun other present => known other (by simp [present])

structure Loads (db : Db) (tables : List TableMeta) : Prop where
  present : db.listedPages ≤ db.filePages
  loaded : ∃ list, loadTables db.storedRows = some list ∧ list.Perm tables
  openable : Openable db tables
  files_known : ∀ file ∈ db.indexFiles, file.name ∈ tables.flatMap indexFilesOf
  metas_known : ∀ file ∈ db.metaFiles, ∃ table, file.2 = some table ∧ WellFormed table ∧
    table.name ∈ tables.map name

theorem init_of_loads (loads : Loads db tables) :
    ∃ memory, db.init = { db with memory := some memory } ∧
      (∀ table, table ∈ memory.openedTables ↔ table ∈ tables) ∧
      0 < memory.nextTableId ∧
      (∀ table ∈ tables, table.tableId < memory.nextTableId) ∧
      ∀ bound, 0 < bound → (∀ table ∈ tables, table.tableId < bound) →
        memory.nextTableId ≤ bound := by
  obtain ⟨list, loaded, same⟩ := loads.loaded
  have openable := openable_perm same loads.openable
  have opened := open_tables db list ⟨[], [], 1, []⟩ (by simpa using openable.names_distinct)
    (by simpa using openable.files_distinct) openable.has_field openable.headers
  have skipped := skip_legacy_tables db (db.metaFiles.map Prod.snd)
    ⟨list, list.flatMap indexFilesOf, nextIdAfter list 1, []⟩ (by
      intro content present
      obtain ⟨file, stored, rfl⟩ := mem_map.mp present
      obtain ⟨table, read, formed, named⟩ := loads.metas_known file stored
      exact ⟨table, read, formed, (same.map _).mem_iff.mpr named⟩)
  have all_opened : openAllTables db
      = some ⟨list, list.flatMap indexFilesOf, nextIdAfter list 1, []⟩ := by
    rw [openAllTables, if_neg loads.present.not_gt, loaded, bind_some, opened, bind_some]
    simpa using skipped
  have replayed : ∀ file ∈ db.indexFiles, file.name ∈ list.flatMap indexFilesOf :=
    fun file present => (same.flatMap_right _).mem_iff.mpr (loads.files_known file present)
  have initialised : db.init = { db with memory := some ⟨list, nextIdAfter list 1⟩ } := by
    rw [Db.init, all_opened]
    exact (if_pos replayed).trans (by simp [Db.appendRows])
  obtain ⟨grows, above⟩ := next_id_above list 1
  refine ⟨_, initialised, fun table => same.mem_iff, grows, ?_, ?_⟩
  · exact fun table present => above table (same.mem_iff.mpr present)
  · exact fun bound positive below =>
      next_id_least positive fun table present => below table (same.mem_iff.mp present)

/-- The files and the catalog describe the created tables. There may be rows of other ids as
long as none of them is a table row. -/
structure Consistent (db : Db) : Prop where
  memory : ∃ memory, db.memory = some memory ∧
    (∀ table, table ∈ memory.openedTables ↔ table ∈ db.created) ∧
    0 < memory.nextTableId ∧ memory.nextTableId ≤ 2147483647 ∧
    ∀ table ∈ db.created, table.tableId < memory.nextTableId
  formed : ∀ table ∈ db.created, WellFormed table
  names_distinct : (db.created.map name).Nodup
  ids_distinct : (db.created.map tableId).Nodup
  rows_of : ∀ table ∈ db.created,
    (db.catalogRows.filter fun row => row.tableId = table.tableId) = tableRows table
  headed : ∀ row ∈ db.catalogRows, row.heading?.isSome →
    row.tableId ∈ db.created.map tableId
  meta_files : ∀ file ∈ db.metaFiles, ∃ table ∈ db.created, file = (table.name, some table)
  data_files : ∀ name ∈ db.dataFiles, name ∈ db.created.map TableMeta.name
  index_files : ∀ name, name ∈ db.indexFiles.map IndexFile.name ↔
    name ∈ db.created.flatMap indexFilesOf
  files_distinct : (db.created.flatMap indexFilesOf).Nodup

def NoStrayRows (db : Db) : Prop :=
  ∀ row ∈ db.catalogRows, row.tableId ∈ db.created.map tableId

/-- Everything that `Db::init` reads before recovery has been written to its file. -/
@[mk_iff]
structure Stored (db : Db) : Prop where
  rows : ∀ row ∈ db.rows, row.2 = true
  listed : db.pageCount ≤ db.listedPages
  present : db.listedPages ≤ db.filePages
  headers : ∀ file ∈ db.indexFiles, file.hasHeader = true

instance (db : Db) : Decidable (Stored db) := decidable_of_iff _ (stored_iff db).symm

theorem consistent_opens (consistent : Consistent db) : OpensCreated db := by
  obtain ⟨memory, opened, same, _⟩ := consistent.memory
  exact ⟨memory, opened, same⟩

theorem consistent_fresh (kit : TrxKit) (pageOf : Nat → Nat) :
    Consistent (Db.fresh kit pageOf) := by
  constructor
  case memory => exact ⟨_, rfl, by simp [Db.fresh], by simp, by simp, by simp [Db.fresh]⟩
  all_goals simp [Db.fresh, Db.catalogRows]

variable {next : Db}

theorem consistent_same (consistent : Consistent db) (rows : next.catalogRows = db.catalogRows)
    (files : next.indexFiles.map IndexFile.name = db.indexFiles.map IndexFile.name)
    (metas : next.metaFiles = db.metaFiles) (data : next.dataFiles = db.dataFiles)
    (memory : next.memory = db.memory) (created : next.created = db.created) :
    Consistent next := by
  obtain ⟨⟩ := consistent
  constructor <;> simp only [rows, files, metas, data, memory, created] <;> assumption

theorem stored_rows_eq (stored : Stored db) : db.storedRows = db.catalogRows := by
  have found : ∀ entry ∈ db.rows.zipIdx,
      (entry.1.2 && decide (db.pageOf entry.2 < db.listedPages)) = true := by
    rintro ⟨row, number⟩ present
    obtain ⟨position, same⟩ := mem_zipIdx' present
    have page : db.pageOf number + 1 ≤
        (Finset.range db.rows.length).sup fun row => db.pageOf row + 1 :=
      Finset.le_sup (f := fun row => db.pageOf row + 1) (Finset.mem_range.mpr position)
    have counted : _ ≤ db.pageCount := Nat.le_max_right 2 _
    have listed := stored.listed
    have written : row.2 = true := stored.rows row (same ▸ getElem_mem position)
    simp only [written, Bool.true_and, decide_eq_true_eq]
    omega
  rw [Db.storedRows, filter_eq_self.mpr found, Db.catalogRows]
  conv_rhs => rw [← zipIdx_map_fst 0 db.rows, List.map_map]
  rfl

theorem consistent_loads (consistent : Consistent db) (stored : Stored db) :
    Loads db db.created where
  present := stored.present
  loaded := by
    rw [stored_rows_eq stored]
    refine load_tables_perm consistent.ids_distinct ?_ consistent.headed
    intro table present
    have formed := consistent.formed table present
    refine ⟨formed.id_pos, ?_⟩
    rw [pendingTable, consistent.rows_of table present]
    exact finish_table_rows formed
  openable :=
    { names_distinct := consistent.names_distinct
      files_distinct := consistent.files_distinct
      has_field := by
        intro table present index listed
        obtain ⟨field, found, _⟩ :=
          (consistent.formed table present).indexes_have_field index listed
        simp [found]
      headers := by
        intro table present file listed
        have known := (consistent.index_files file).mpr (mem_flatMap.mpr ⟨table, present, listed⟩)
        obtain ⟨⟨name, hasHeader⟩, there, rfl⟩ := mem_map.mp known
        have written : hasHeader = true := stored.headers _ there
        exact written ▸ there }
  files_known file present :=
    (consistent.index_files file.name).mp (mem_map.mpr ⟨file, present, rfl⟩)
  metas_known file present := by
    obtain ⟨table, created, rfl⟩ := consistent.meta_files file present
    exact ⟨table, rfl, consistent.formed table created, mem_map.mpr ⟨table, created, rfl⟩⟩

theorem init_keeps (consistent : Consistent db) (stored : Stored db) :
    Consistent db.init ∧ db.init.rows = db.rows ∧ db.init.created = db.created := by
  obtain ⟨old, _, _, positive, limited, above⟩ := consistent.memory
  obtain ⟨memory, initialised, same, first, fresh, least⟩ :=
    init_of_loads (consistent_loads consistent stored)
  have limit : memory.nextTableId ≤ 2147483647 := (least _ positive above).trans limited
  rw [initialised]
  exact ⟨{ consistent with memory := ⟨memory, rfl, same, first, limit, fresh⟩ }, rfl, rfl⟩

theorem shutdown_rows (db : Db) : db.shutdown.catalogRows = db.catalogRows := by
  simp [Db.shutdown, Db.catalogRows]

theorem shutdown_consistent (consistent : Consistent db) : Consistent db.shutdown :=
  consistent_same consistent (shutdown_rows db) (by simp [Db.shutdown]) rfl rfl rfl rfl

theorem shutdown_stored (db : Db) : Stored db.shutdown where
  rows := by simp [Db.shutdown]
  listed := by simp [Db.shutdown, Db.pageCount]
  present := by simp [Db.shutdown]
  headers := by simp [Db.shutdown]

theorem write_page_rows (db : Db) (page : Nat) :
    (db.writePage page).catalogRows = db.catalogRows := by
  refine List.ext_getElem? fun position => ?_
  simp only [Db.catalogRows, Db.writePage, List.getElem?_map, List.getElem?_mapIdx, Option.map_map]
  rfl

theorem write_header_names (db : Db) (file : Name) :
    (db.writeHeader file).indexFiles.map IndexFile.name = db.indexFiles.map IndexFile.name := by
  simp [Db.writeHeader]

/-- The names of a table and its columns fit into the catalog, and its primary keys are
different columns. -/
@[mk_iff]
structure WellNamed (request : TableRequest) : Prop where
  name_fits : request.name.length ≤ 128
  columns_fit : ∀ attr ∈ request.attributes, attr.name.length ≤ 128
  keys_distinct : request.primaryKeys.Nodup
  keys_are_columns : ∀ key ∈ request.primaryKeys, ∃ attr ∈ request.attributes, attr.name = key

section

variable {attributes : List AttrInfo} {offset fieldId : Nat} {fields : List FieldMeta}
  (made : initFields offset fieldId attributes = some fields)
include made

theorem init_fields_names :
    fields.map FieldMeta.name = attributes.map AttrInfo.name := by
  induction attributes generalizing offset fieldId fields with
  | nil =>
    cases made
    rfl
  | cons attr rest ih =>
    simp only [initFields, ite_none_left_eq_some, map_eq_some_iff] at made
    obtain ⟨_, later, made, rfl⟩ := made
    rw [map_cons, map_cons, ih made]

theorem init_fields_offsets :
    (∀ field ∈ fields, offset ≤ field.offset) ∧
      fields.Pairwise fun left right => left.offset ≤ right.offset := by
  induction attributes generalizing offset fieldId fields with
  | nil =>
    cases made
    simp
  | cons attr rest ih =>
    simp only [initFields, ite_none_left_eq_some, map_eq_some_iff] at made
    obtain ⟨_, later, made, rfl⟩ := made
    obtain ⟨above, ordered⟩ := ih made
    have further : ∀ field ∈ later, offset ≤ field.offset :=
      fun field present => (Nat.le_add_right _ _).trans (above field present)
    exact ⟨forall_mem_cons.mpr ⟨le_refl _, further⟩, pairwise_cons.mpr ⟨further, ordered⟩⟩

end

theorem trx_fields_offsets (kit : TrxKit) :
    (∀ field ∈ trxFields kit, field.offset ≤ 4 * (trxFields kit).length) ∧
      (∀ field ∈ trxFields kit, field.name.length ≤ 128) ∧
      (trxFields kit).Pairwise fun left right => left.offset ≤ right.offset := by
  cases kit <;> decide

variable {tableId : Nat} {request : TableRequest}

theorem table_init_formed {kit : TrxKit} (made : init kit tableId request = some table)
    (positive : 0 < tableId) (visible : isBlank request.name = false)
    (columns : request.attributes ≠ []) (named : WellNamed request) : WellFormed table := by
  obtain ⟨fields, initialised, rfl⟩ := map_eq_some_iff.mp made
  have names := init_fields_names initialised
  obtain ⟨above, ordered⟩ := init_fields_offsets initialised
  obtain ⟨trx_below, trx_fit, trx_ordered⟩ := trx_fields_offsets kit
  have of_column : ∀ name, name ∈ request.attributes.map AttrInfo.name ↔
      ∃ field ∈ fields, field.name = name := by
    intro name
    rw [← names, List.mem_map]
  exact
    { id_pos := positive
      name_fits := named.name_fits
      name_visible := visible
      fields_present := by
        intro none_left
        have empty := (append_eq_nil_iff.mp none_left).2
        rw [empty] at names
        exact columns (map_eq_nil_iff.mp names.symm)
      fields_fit := by
        intro field present
        rcases mem_append.mp present with present | present
        · exact trx_fit field present
        · obtain ⟨attr, listed, same⟩ :=
            mem_map.mp ((of_column field.name).mpr ⟨field, present, rfl⟩)
          exact same ▸ named.columns_fit attr listed
      offsets_ordered := by
        refine pairwise_append.mpr ⟨trx_ordered, ordered, ?_⟩
        exact fun left trx right column => (trx_below left trx).trans (above right column)
      keys_distinct := named.keys_distinct
      keys_are_fields := by
        intro key present
        obtain ⟨attr, listed, same⟩ := named.keys_are_columns key present
        obtain ⟨field, column, field_named⟩ :=
          (of_column key).mp (mem_map.mpr ⟨attr, listed, same⟩)
        exact ⟨field, mem_append_right _ column, field_named⟩
      indexes_fit := by simp
      indexes_have_field := by simp }

def Db.takeId (db : Db) : Db :=
  { db with memory := db.memory.map fun memory =>
      { memory with nextTableId := memory.nextTableId + 1 } }

theorem append_rows_catalog (db : Db) (rows : List CatalogRow) :
    (db.appendRows rows).catalogRows = db.catalogRows ++ rows := by
  simp [Db.appendRows, Db.catalogRows, comp_def]

theorem add_table_catalog (db : Db) (table : TableMeta) :
    (db.addTable table).catalogRows = db.catalogRows ++ registerRows table := by
  have rows_same : (db.addTable table).catalogRows
      = (db.appendRows (registerRows table)).catalogRows := rfl
  rw [rows_same, append_rows_catalog]

theorem filter_other_rows {rows : List CatalogRow} (other : ∀ row ∈ rows, row.tableId ≠ tableId) :
    (rows.filter fun row => row.tableId = tableId) = [] := by
  refine filter_eq_nil_iff.mpr fun row present => ?_
  simpa using other row present

theorem filter_own_rows {rows : List CatalogRow} (own : ∀ row ∈ rows, row.tableId = tableId) :
    (rows.filter fun row => row.tableId = tableId) = rows := by
  refine filter_eq_self.mpr fun row present => ?_
  simpa using own row present

theorem consistent_add_table {memory : Memory}
    (consistent : Consistent db) (opened : db.memory = some memory)
    (fits : memory.nextTableId < 2147483647) (taken : table.tableId = memory.nextTableId)
    (formed : WellFormed table) (bare : table.indexes = [])
    (new : table.name ∉ db.created.map name)
    (unused : ∀ row ∈ db.catalogRows, row.tableId ≠ table.tableId) :
    Consistent (db.takeId.addTable table) := by
  obtain ⟨same_memory, same_opened, same, positive, _, above⟩ := consistent.memory
  obtain rfl : memory = same_memory := some.inj (opened.symm.trans same_opened)
  have registered : registerRows table = tableRows table := register_rows_bare bare
  have rows : (db.takeId.addTable table).catalogRows = db.catalogRows ++ tableRows table := by
    rw [add_table_catalog, registered]
    rfl
  have created : (db.takeId.addTable table).created = db.created ++ [table] := rfl
  have files : (db.created ++ [table]).flatMap indexFilesOf = db.created.flatMap indexFilesOf := by
    simp [indexFilesOf, bare]
  have new_id : ∀ other ∈ db.created, other.tableId ≠ table.tableId := by
    intro other present
    have below := above other present
    omega
  have new_name : table.name ∉ memory.openedTables.map name := by
    intro present
    obtain ⟨other, listed, named⟩ := mem_map.mp present
    exact new (mem_map.mpr ⟨other, (same other).mp listed, named⟩)
  constructor
  case memory =>
    refine ⟨⟨memory.openedTables ++ [table], memory.nextTableId + 1⟩, ?_, ?_, ?_, ?_, ?_⟩
    · simp [Db.addTable, Db.takeId, Db.appendRows, opened, insert_table_new new_name]
    · intro other
      simp [created, same]
    · simp
    · exact fits
    · intro other present
      rcases mem_append.mp (created ▸ present) with present | present
      · exact (above other present).trans (Nat.lt_succ_self _)
      · simp [mem_singleton.mp present, taken]
  case formed =>
    rw [created]
    exact forall_mem_append.mpr ⟨consistent.formed, forall_mem_singleton.mpr formed⟩
  case names_distinct =>
    rw [created, map_append, nodup_append']
    exact ⟨consistent.names_distinct, by simp, by simpa using new⟩
  case ids_distinct =>
    rw [created, map_append, nodup_append']
    refine ⟨consistent.ids_distinct, by simp, ?_⟩
    simpa using new_id
  case rows_of =>
    intro other present
    rw [rows, filter_append]
    rcases mem_append.mp (created ▸ present) with present | present
    · rw [consistent.rows_of other present, filter_other_rows, append_nil]
      intro row listed
      rw [table_rows_id listed]
      exact (new_id other present).symm
    · rw [mem_singleton.mp present, filter_other_rows unused,
        filter_own_rows fun row listed => table_rows_id listed, nil_append]
  case headed =>
    intro row present heads
    rw [created, map_append]
    rcases mem_append.mp (rows ▸ present) with present | present
    · exact mem_append_left _ (consistent.headed row present heads)
    · exact mem_append_right _ (by simp [table_rows_id present])
  case meta_files =>
    intro file present
    rw [created]
    rcases mem_append.mp present with present | present
    · obtain ⟨other, listed, named⟩ := consistent.meta_files file present
      exact ⟨other, mem_append_left _ listed, named⟩
    · exact ⟨table, by simp, mem_singleton.mp present⟩
  case data_files =>
    intro name present
    rw [created, map_append]
    rcases mem_append.mp present with present | present
    · exact mem_append_left _ (consistent.data_files name present)
    · exact mem_append_right _ (by simpa using present)
  case index_files =>
    intro name
    rw [created, files]
    exact consistent.index_files name
  case files_distinct =>
    rw [created, files]
    exact consistent.files_distinct

theorem well_formed_add_index {index : IndexMeta} (formed : WellFormed table)
    (fits : index.name.length ≤ 128) (visible : isBlank index.name = false)
    (has_field : ∃ field, table.field index.field = some field ∧ field.name = index.field) :
    WellFormed (table.addIndex index) :=
  { formed with
    indexes_fit := forall_mem_append.mpr
      ⟨formed.indexes_fit, forall_mem_singleton.mpr ⟨fits, visible⟩⟩
    indexes_have_field := forall_mem_append.mpr
      ⟨formed.indexes_have_field, forall_mem_singleton.mpr has_field⟩ }

theorem add_index_files (index : IndexMeta)
    (distinct : (tables.map name).Nodup) (present : table ∈ tables) :
    ((tables.map fun other => if other.name = table.name then other.addIndex index
      else other).flatMap indexFilesOf).Perm
      (tables.flatMap indexFilesOf ++ [tableIndexFile table index.name]) := by
  obtain ⟨front, back, rfl⟩ := append_of_mem present
  rw [map_append, map_cons, nodup_append', nodup_cons] at distinct
  obtain ⟨_, ⟨not_back, _⟩, apart⟩ := distinct
  have unchanged : ∀ others : List TableMeta, table.name ∉ others.map name →
      (others.map fun other => if other.name = table.name then other.addIndex index else other)
        = others := by
    intro others absent
    refine (map_congr_left fun other listed => ?_).trans (map_id others)
    exact if_neg fun same => absent (mem_map.mpr ⟨other, listed, same⟩)
  have own : indexFilesOf (table.addIndex index)
      = indexFilesOf table ++ [tableIndexFile table index.name] := by
    simp [indexFilesOf, addIndex, tableIndexFile]
  rw [map_append, map_cons, if_pos rfl, unchanged front fun listed => apart listed (by simp),
    unchanged back not_back]
  simp only [flatMap_append, flatMap_cons, own, append_assoc]
  exact .append_left _ (.append_left _ perm_append_comm)

theorem add_index_same {Value : Type} {index : IndexMeta} (get : TableMeta → Value)
    (same : ∀ other, get (other.addIndex index) = get other) (db : Db) :
    (db.addIndex table index).created.map get = db.created.map get := by
  simp only [Db.addIndex, List.map_map]
  refine map_congr_left fun other _ => ?_
  rw [comp_apply]
  split
  · exact same other
  · rfl

theorem consistent_add_index {index : IndexMeta}
    (consistent : Consistent db) (tableCreated : table ∈ db.created)
    (formed : WellFormed (table.addIndex index))
    (new : tableIndexFile table index.name ∉ db.indexFiles.map IndexFile.name) :
    Consistent (db.addIndex table index) := by
  obtain ⟨memory, opened, same, positive, limited, above⟩ := consistent.memory
  have rows : (db.addIndex table index).catalogRows
      = db.catalogRows ++ [indexRow table index] := append_rows_catalog db _
  have names := @add_index_same table _ index name (fun _ => rfl) db
  have ids := @add_index_same table _ index tableId (fun _ => rfl) db
  have listed : ∀ other ∈ (db.addIndex table index).created,
      other = table.addIndex index ∨ other ∈ db.created ∧ other.tableId ≠ table.tableId := by
    intro other listed
    obtain ⟨old, created, rfl⟩ := mem_map.mp listed
    by_cases named : old.name = table.name
    · rw [if_pos named, inj_on_of_nodup_map consistent.names_distinct created tableCreated named]
      exact .inl rfl
    · rw [if_neg named]
      refine .inr ⟨created, fun same_id => named ?_⟩
      rw [inj_on_of_nodup_map consistent.ids_distinct created tableCreated same_id]
  have files : ((db.addIndex table index).created.flatMap indexFilesOf).Perm _ :=
    add_index_files index consistent.names_distinct tableCreated
  constructor
  case memory =>
    refine ⟨⟨memory.openedTables.map fun other =>
      if other.name = table.name then other.addIndex index else other, memory.nextTableId⟩,
      ?_, ?_, positive, limited, ?_⟩
    · simp [Db.addIndex, Db.appendRows, opened]
    · intro other
      simp [Db.addIndex, same]
    · intro other present
      rcases listed other present with rfl | ⟨present, _⟩
      · exact above table tableCreated
      · exact above other present
  case formed =>
    intro other present
    rcases listed other present with rfl | ⟨present, _⟩
    · exact formed
    · exact consistent.formed other present
  case names_distinct => exact names ▸ consistent.names_distinct
  case ids_distinct => exact ids ▸ consistent.ids_distinct
  case rows_of =>
    intro other present_other
    rw [rows, filter_append]
    rcases listed other present_other with rfl | ⟨created_other, different⟩
    · have own : (table.addIndex index).tableId = table.tableId := rfl
      rw [own, consistent.rows_of table tableCreated, table_rows_add_index]
      simp [indexRow, CatalogRow.tableId]
    · rw [consistent.rows_of other created_other, filter_other_rows, append_nil]
      intro row of_index
      rw [mem_singleton.mp of_index]
      exact different.symm
  case headed =>
    intro row stored heads
    rw [ids]
    rcases mem_append.mp (rows ▸ stored) with stored | stored
    · exact consistent.headed row stored heads
    · rw [mem_singleton.mp stored] at heads
      exact absurd heads (by simp [indexRow, CatalogRow.heading?])
  case meta_files =>
    intro file stored
    rcases mem_append.mp stored with stored | stored
    · obtain ⟨stored, other_name⟩ := mem_filter.mp stored
      obtain ⟨other, created_other, rfl⟩ := consistent.meta_files file stored
      exact ⟨other, mem_map.mpr ⟨other, created_other, if_neg (of_decide_eq_true other_name)⟩, rfl⟩
    · exact ⟨_, mem_map.mpr ⟨table, tableCreated, if_pos rfl⟩, mem_singleton.mp stored⟩
  case data_files => exact names ▸ consistent.data_files
  case index_files =>
    intro name
    rw [files.mem_iff]
    simp [Db.addIndex, ← consistent.index_files name]
  case files_distinct =>
    rw [files.nodup_iff, nodup_append']
    refine ⟨consistent.files_distinct, by simp, ?_⟩
    rw [consistent.index_files] at new
    simpa using new

variable {fault : Option Fault}

theorem create_data_success (succeeds : (createData db table fault).1 = true) :
    createData db table fault = (true, db.addTable table) := by
  unfold createData at succeeds ⊢
  simp only at succeeds ⊢
  split at succeeds
  · cases succeeds
  next free =>
    rw [if_neg free]
    split at succeeds
    · cases succeeds
    · cases succeeds
    next position =>
      split at succeeds
      · cases succeeds
      next beyond => exact if_neg beyond
    · rfl

theorem create_files_success (succeeds : (createFiles db tableId request fault).1 = true) :
    isBlank request.name = false ∧ request.attributes ≠ [] ∧
      ∃ table, init db.kit tableId request = some table ∧
        createFiles db tableId request fault = (true, db.addTable table) := by
  unfold createFiles at succeeds ⊢
  split at succeeds
  · cases succeeds
  next valid =>
    split at succeeds
    · cases succeeds
    next free =>
      rw [if_neg valid, if_neg free]
      obtain ⟨visible, columns⟩ := not_or.mp valid
      refine ⟨Bool.eq_false_iff.mpr visible, columns, ?_⟩
      cases made : init db.kit tableId request with
      | none => simp [made] at succeeds
      | some table =>
        refine ⟨table, rfl, ?_⟩
        simp only [made] at succeeds ⊢
        split at succeeds
        · cases succeeds
        next written =>
          rw [if_neg written]
          exact create_data_success succeeds

theorem create_table_success (succeeds : (createTable db request fault).1 = true) :
    ∃ memory table, db.memory = some memory ∧
      request.name ∉ memory.openedTables.map name ∧
      isBlank request.name = false ∧ request.attributes ≠ [] ∧
      init db.kit memory.nextTableId request = some table ∧
      (createTable db request fault).2 = db.takeId.addTable table := by
  unfold createTable at succeeds ⊢
  cases opened : db.memory with
  | none => simp [opened] at succeeds
  | some memory =>
    simp only [opened] at succeeds ⊢
    split at succeeds
    · cases succeeds
    next free =>
      obtain ⟨visible, columns, table, made, result⟩ := create_files_success succeeds
      have taken : db.takeId
          = { db with memory := some { memory with nextTableId := memory.nextTableId + 1 } } := by
        simp [Db.takeId, opened]
      refine ⟨memory, table, rfl, fun listed => free (.inr listed), visible, columns, made, ?_⟩
      rw [if_neg free, result, taken]

theorem find_table_mem {name : Name}
    (found : findTable tables name = some table) : table ∈ tables := by
  rcases or_eq_some_iff.mp found with exact_name | ⟨_, other_case⟩
  · exact mem_of_find?_eq_some exact_name
  · exact mem_of_find?_eq_some other_case

theorem field_found_again {name : Name} {field : FieldMeta}
    (found : table.field name = some field) : table.field field.name = some field := by
  have same_case : lowerCase field.name = lowerCase name := by
    simpa using find?_some found
  rw [TableMeta.field, same_case]
  exact found

theorem create_index_success {tableName indexName attributeName : Name}
    (succeeds : createIndex db tableName indexName attributeName = some next) :
    ∃ memory table field, db.memory = some memory ∧ table ∈ memory.openedTables ∧
      table.field field.name = some field ∧ isBlank indexName = false ∧
      tableIndexFile table indexName ∉ db.indexFiles.map IndexFile.name ∧
      next = db.addIndex table ⟨indexName, field.name⟩ := by
  obtain ⟨memory, opened, succeeds⟩ := bind_eq_some_iff.mp succeeds
  obtain ⟨table, found, succeeds⟩ := bind_eq_some_iff.mp succeeds
  obtain ⟨field, has_field, succeeds⟩ := bind_eq_some_iff.mp succeeds
  obtain ⟨valid, result⟩ := ite_none_left_eq_some.mp succeeds
  simp only [not_or, Bool.not_eq_true] at valid
  exact ⟨memory, table, field, opened, find_table_mem found, field_found_again has_field,
    valid.1, valid.2.2, (some.inj result).symm⟩

/-- Tables are well named and created successfully, the names of indexes fit, and the system
crashes only when everything that is opened first has been written. -/
def Careful (db : Db) : Action → Prop
  | .createTable request fault => WellNamed request ∧ (createTable db request fault).1 = true
  | .createIndex _ indexName _ => indexName.length ≤ 128
  | .writePage _ => True
  | .writeCatalogHeader => True
  | .writeHeader _ => True
  | .restart => True
  | .crash => Stored db

theorem fresh_no_stray_rows (kit : TrxKit) (pageOf : Nat → Nat) :
    NoStrayRows (Db.fresh kit pageOf) := by
  simp [NoStrayRows, Db.fresh, Db.catalogRows]

theorem no_stray_rows_same (clean : NoStrayRows db)
    (rows : next.catalogRows = db.catalogRows) (created : next.created = db.created) :
    NoStrayRows next := by
  rw [NoStrayRows, rows, created]
  exact clean

section

variable (consistent : Consistent db) (clean : NoStrayRows db)
include consistent clean

theorem create_table_keeps (fits : db.idFits = true) (named : WellNamed request)
    (succeeds : (createTable db request fault).1 = true) :
    Consistent (createTable db request fault).2 ∧ NoStrayRows (createTable db request fault).2 := by
  obtain ⟨memory, table, opened, new, visible, columns, made, result⟩ :=
    create_table_success succeeds
  obtain ⟨same_memory, same_opened, same, positive, _, above⟩ := consistent.memory
  obtain rfl : memory = same_memory := some.inj (opened.symm.trans same_opened)
  have id_fits : memory.nextTableId < 2147483647 := by
    simpa [Db.idFits, opened] using fits
  have formed := table_init_formed made positive visible columns named
  obtain ⟨fields, _, rfl⟩ := map_eq_some_iff.mp made
  have new_name : request.name ∉ db.created.map name := by
    intro listed
    obtain ⟨other, created, same_name⟩ := mem_map.mp listed
    exact new (mem_map.mpr ⟨other, (same other).mpr created, same_name⟩)
  have unused : ∀ row ∈ db.catalogRows, row.tableId ≠ memory.nextTableId := by
    intro row stored
    obtain ⟨other, created, same_id⟩ := mem_map.mp (clean row stored)
    have below := above other created
    omega
  rw [result]
  refine ⟨consistent_add_table consistent opened id_fits rfl formed rfl new_name unused, ?_⟩
  intro row stored
  rw [add_table_catalog, register_rows_bare rfl] at stored
  rcases mem_append.mp stored with stored | stored
  · exact mem_map.mpr (by
      obtain ⟨other, created, same_id⟩ := mem_map.mp (clean row stored)
      exact ⟨other, mem_append_left _ created, same_id⟩)
  · exact mem_map.mpr ⟨_, mem_append_right _ (mem_singleton.mpr rfl),
      (table_rows_id stored).symm⟩

theorem create_index_keeps {tableName indexName attributeName : Name}
    (fits : indexName.length ≤ 128)
    (succeeds : createIndex db tableName indexName attributeName = some next) :
    Consistent next ∧ NoStrayRows next := by
  obtain ⟨memory, table, field, opened, listed, found, visible, new, rfl⟩ :=
    create_index_success succeeds
  obtain ⟨same_memory, same_opened, same, _⟩ := consistent.memory
  obtain rfl : memory = same_memory := some.inj (opened.symm.trans same_opened)
  have created := (same table).mp listed
  have formed : WellFormed (table.addIndex ⟨indexName, field.name⟩) :=
    well_formed_add_index (consistent.formed table created) fits visible ⟨field, found, rfl⟩
  refine ⟨consistent_add_index consistent created formed new, ?_⟩
  have rows : (db.addIndex table ⟨indexName, field.name⟩).catalogRows
      = db.catalogRows ++ [indexRow table ⟨indexName, field.name⟩] := append_rows_catalog db _
  rw [NoStrayRows, rows, add_index_same tableId fun _ => rfl]
  exact forall_mem_append.mpr
    ⟨clean, forall_mem_singleton.mpr (mem_map.mpr ⟨table, created, rfl⟩)⟩

theorem init_keeps_both (stored : Stored db) : Consistent db.init ∧ NoStrayRows db.init := by
  obtain ⟨kept, rows, created⟩ := init_keeps consistent stored
  exact ⟨kept, no_stray_rows_same clean (congrArg (map Prod.fst) rows) created⟩

end

theorem careful_step_keeps {action : Action}
    (holds : Consistent db ∧ NoStrayRows db) (met : Careful db action)
    (taken : step db action = some next) : Consistent next ∧ NoStrayRows next := by
  obtain ⟨consistent, clean⟩ := holds
  cases action with
  | createTable request fault =>
    obtain ⟨fits, ⟨⟩⟩ := ite_none_right_eq_some.mp taken
    exact create_table_keeps consistent clean fits met.1 met.2
  | createIndex tableName indexName attributeName =>
    exact create_index_keeps consistent clean met taken
  | writePage page =>
    obtain ⟨_, ⟨⟩⟩ := ite_none_right_eq_some.mp taken
    have rows := write_page_rows db page
    exact ⟨consistent_same consistent rows rfl rfl rfl rfl rfl, no_stray_rows_same clean rows rfl⟩
  | writeCatalogHeader =>
    obtain ⟨_, ⟨⟩⟩ := ite_none_right_eq_some.mp taken
    exact ⟨consistent_same consistent rfl rfl rfl rfl rfl rfl, no_stray_rows_same clean rfl rfl⟩
  | writeHeader file =>
    obtain ⟨_, ⟨⟩⟩ := ite_none_right_eq_some.mp taken
    have names := write_header_names db file
    exact ⟨consistent_same consistent rfl names rfl rfl rfl rfl, no_stray_rows_same clean rfl rfl⟩
  | restart =>
    obtain ⟨_, ⟨⟩⟩ := ite_none_right_eq_some.mp taken
    exact init_keeps_both (shutdown_consistent consistent)
      (no_stray_rows_same clean (shutdown_rows db) rfl) (shutdown_stored db)
  | crash =>
    cases taken
    exact init_keeps_both consistent clean met

theorem careful_run_keeps {kit : TrxKit} {pageOf : Nat → Nat} {last : Db}
    (ran : Reaches step Careful (Db.fresh kit pageOf) last) : Consistent last ∧ NoStrayRows last :=
  reaches_invariant (fun db => Consistent db ∧ NoStrayRows db)
    (fun _ _ _ holds met taken => careful_step_keeps holds met taken)
    ⟨consistent_fresh kit pageOf, fresh_no_stray_rows kit pageOf⟩ ran

instance (request : TableRequest) : Decidable (WellNamed request) :=
  decidable_of_iff _ (wellNamed_iff request).symm

instance (db : Db) (action : Action) : Decidable (Careful db action) := by
  cases action <;> (unfold Careful; infer_instance)

def oneColumnTable : TableRequest := ⟨[116], [⟨[97], .ints, 4, false⟩], [[97]], .rowFormat⟩

/-- A page holds eighteen rows of the catalog, and the first page its own sixteen. -/
def catalogPage (row : Nat) : Nat := (row + 16) / 18 + 1

/-- A table with an index, the pages of the catalog and the headers written, then a crash and a
clean restart. -/
def writtenThenCrash : List Action :=
  [.createTable oneColumnTable none, .createIndex [116] [105] [97], .writePage 1, .writePage 2,
    .writeCatalogHeader, .writeHeader [116, 45, 105], .crash, .restart]

def TablesCreated (db : Db) : Action → Prop
  | .createTable request fault => (createTable db request fault).1 = true
  | _ => True

instance (db : Db) (action : Action) : Decidable (TablesCreated db action) := by
  cases action <;> (unfold TablesCreated; infer_instance)

/-- `CREATE TABLE t(a INT)`, a crash with no row in the data file, and a clean restart. -/
def createdThenCrash : List Action :=
  [.createTable ⟨[116], [⟨[97], .ints, 4, false⟩], [], .rowFormat⟩ none, .crash, .restart]

end CsuDbms.SchemaCatalogModel
