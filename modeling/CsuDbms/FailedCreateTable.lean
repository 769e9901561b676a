import CsuDbms.SchemaDurability

/-!
# What a failed `CREATE TABLE` leaves behind

`Table::create` returns at the first error without removing the files it has
made, and a registration that fails keeps the rows inserted before.
-/

namespace CsuDbms.SchemaCatalogModel

open TransitionSystem List Option TableMeta

/-- The statement gets no further than opening its metadata file. -/
def FailsBeforeWriting (db : Db) (request : TableRequest) (fault : Option Fault) : Prop :=
  request.name = catalogTableName
    ∨ (db.memory.any fun memory => request.name ∈ memory.openedTables.map name) = true
    ∨ isBlank request.name = true ∨ request.attributes = []
    ∨ request.name ∈ db.metaFiles.map Prod.fst ∨ fault = some .openMeta

def HasValidColumns (kit : TrxKit) (request : TableRequest) : Prop :=
  (initFields (4 * (trxFields kit).length) 0 request.attributes).isSome

/-- The statement fails before it writes anything, or at the first row of the catalog, when
both of its files are removed. -/
def Harmless (db : Db) (request : TableRequest) (fault : Option Fault) : Prop :=
  FailsBeforeWriting db request fault
    ∨ HasValidColumns db.kit request ∧ request.name ∉ db.dataFiles
      ∧ fault = some (.registerRow 0)

instance (db : Db) (request : TableRequest) (fault : Option Fault) :
    Decidable (Harmless db request fault) := by
  unfold Harmless FailsBeforeWriting HasValidColumns
  infer_instance

def Undisturbed (db : Db) (action : Action) : Prop :=
  Careful db action ∨ ∃ request fault, action = .createTable request fault ∧
    (createTable db request fault).1 = false ∧ Harmless db request fault

/-- After the step from `db` to `next`, whatever follows, the open tables are those that were
created, and a table of this name can be created if it could be before. -/
def LeavesNoTrace (db next : Db) (name : Name) : Prop :=
  (∀ later, Reaches step Undisturbed next later → OpensCreated later) ∧
    ∀ request : TableRequest, request.name = name → (createTable db request none).1 = true →
      (createTable next request none).1 = true

theorem table_init_isSome (kit : TrxKit) (tableId : Nat) (request : TableRequest) :
    (init kit tableId request).isSome ↔ HasValidColumns kit request := by
  simp [init, HasValidColumns]

variable {db : Db} {memory : Memory}

theorem take_id_eq (opened : db.memory = some memory) :
    db.takeId
      = { db with memory := some { memory with nextTableId := memory.nextTableId + 1 } } := by
  simp [Db.takeId, opened]

variable {request : TableRequest} {fault : Option Fault}

section

variable (opened : db.memory = some memory)
include opened

theorem create_table_early (early : FailsBeforeWriting db request fault) :
    createTable db request fault = (false, db) ∨
      createTable db request fault = (false, db.takeId) := by
  unfold createTable
  simp only [opened, take_id_eq opened]
  by_cases taken : request.name = catalogTableName
      ∨ request.name ∈ memory.openedTables.map name
  · exact .inl (if_pos taken)
  · rw [if_neg taken]
    obtain ⟨unreserved, unopened⟩ := not_or.mp taken
    right
    unfold createFiles
    by_cases invalid : isBlank request.name = true ∨ request.attributes = []
    · exact if_pos invalid
    · rw [if_neg invalid]
      obtain ⟨visible, columns⟩ := not_or.mp invalid
      simp only [FailsBeforeWriting, opened, any_some, decide_eq_true_eq, unreserved,
        unopened, visible, columns, Bool.false_eq_true, false_or] at early
      exact if_pos early

theorem create_table_late (late : ¬ FailsBeforeWriting db request fault) :
    createTable db request fault =
      match init db.kit memory.nextTableId request with
      | none => (false, { db.takeId with metaFiles := db.metaFiles ++ [(request.name, none)] })
      | some table =>
        if fault = some .writeMeta then
          (false, { db.takeId with metaFiles := db.metaFiles ++ [(request.name, none)] })
        else createData db.takeId table fault := by
  simp only [FailsBeforeWriting, opened, any_some, decide_eq_true_eq, not_or] at late
  obtain ⟨unreserved, unopened, visible, columns, unwritten, no_fault⟩ := late
  unfold createTable
  simp only [opened, take_id_eq opened]
  rw [if_neg (not_or.mpr ⟨unreserved, unopened⟩)]
  unfold createFiles
  exact (if_neg (not_or.mpr ⟨visible, columns⟩)).trans
    (if_neg (not_or.mpr ⟨unwritten, no_fault⟩))

theorem create_table_none_iff :
    (createTable db request none).1 = true ↔
      ¬ FailsBeforeWriting db request none ∧ HasValidColumns db.kit request ∧
        request.name ∉ db.dataFiles := by
  by_cases early : FailsBeforeWriting db request none
  · have fails : (createTable db request none).1 = false := by
      rcases create_table_early opened early with result | result <;> rw [result]
    simp [fails, early]
  · rw [create_table_late opened early, ← table_init_isSome db.kit memory.nextTableId]
    cases made : init db.kit memory.nextTableId request with
    | none => simp
    | some table =>
      obtain ⟨fields, _, rfl⟩ := map_eq_some_iff.mp made
      have data_same : db.takeId.dataFiles = db.dataFiles := rfl
      by_cases occupied : request.name ∈ db.dataFiles
      · simp [createData, data_same, occupied]
      · simp [createData, data_same, occupied, early]

end

theorem append_no_rows (db : Db) : db.appendRows [] = db := by
  simp [Db.appendRows]

theorem harmless_result (opened : db.memory = some memory)
    (harmless : Harmless db request fault) (fails : (createTable db request fault).1 = false) :
    (createTable db request fault).2 = db ∨ (createTable db request fault).2 = db.takeId := by
  by_cases early : FailsBeforeWriting db request fault
  · rcases create_table_early opened early with result | result
    · exact .inl (congrArg Prod.snd result)
    · exact .inr (congrArg Prod.snd result)
  · obtain ⟨columns, data_free, rfl⟩ := harmless.resolve_left early
    rw [create_table_late opened early]
    obtain ⟨table, made⟩ := isSome_iff_exists.mp
      ((table_init_isSome db.kit memory.nextTableId request).mpr columns)
    rw [made]
    obtain ⟨fields, _, rfl⟩ := map_eq_some_iff.mp made
    have data_same : db.takeId.dataFiles = db.dataFiles := rfl
    simp [createData, data_same, data_free, registerRows, append_no_rows]

theorem consistent_take_id (consistent : Consistent db) (fits : db.idFits = true) :
    Consistent db.takeId := by
  obtain ⟨memory, opened, same, _, _, above⟩ := consistent.memory
  have id_fits : memory.nextTableId < 2147483647 := by
    simpa [Db.idFits, opened] using fits
  rw [take_id_eq opened]
  exact { consistent with
    memory := ⟨_, rfl, same, Nat.succ_pos _, id_fits, fun table created =>
      (above table created).trans (Nat.lt_succ_self _)⟩ }

theorem undisturbed_step_keeps {next : Db} {action : Action}
    (holds : Consistent db ∧ NoStrayRows db) (met : Undisturbed db action)
    (taken : step db action = some next) : Consistent next ∧ NoStrayRows next := by
  rcases met with careful | ⟨request, fault, rfl, fails, harmless⟩
  · exact careful_step_keeps holds careful taken
  · obtain ⟨consistent, clean⟩ := holds
    obtain ⟨memory, opened, _⟩ := consistent.memory
    obtain ⟨fits, ⟨⟩⟩ := ite_none_right_eq_some.mp taken
    rcases harmless_result opened harmless fails with same | same
    · rw [same]
      exact ⟨consistent, clean⟩
    · rw [same]
      exact ⟨consistent_take_id consistent fits, no_stray_rows_same clean rfl rfl⟩

theorem undisturbed_run_keeps {first last : Db} (holds : Consistent first ∧ NoStrayRows first)
    (ran : Reaches step Undisturbed first last) : Consistent last ∧ NoStrayRows last :=
  reaches_invariant (fun db => Consistent db ∧ NoStrayRows db)
    (fun _ _ _ holds met taken => undisturbed_step_keeps holds met taken) holds ran

theorem creatable_take_id
    (opened : db.memory = some memory) (succeeds : (createTable db request none).1 = true) :
    (createTable db.takeId request none).1 = true := by
  have taken := take_id_eq opened
  rw [create_table_none_iff opened] at succeeds
  rw [taken, create_table_none_iff rfl]
  obtain ⟨late, columns, data_free⟩ := succeeds
  refine ⟨?_, columns, data_free⟩
  simpa [FailsBeforeWriting, opened] using late

theorem harmless_leaves_no_trace (holds : Consistent db ∧ NoStrayRows db) (fits : db.idFits = true)
    (fails : (createTable db request fault).1 = false) (harmless : Harmless db request fault) :
    LeavesNoTrace db (createTable db request fault).2 request.name := by
  have taken : step db (.createTable request fault) = some (createTable db request fault).2 :=
    if_pos fits
  have kept := undisturbed_step_keeps holds (.inr ⟨request, fault, rfl, fails, harmless⟩) taken
  obtain ⟨memory, opened, _⟩ := holds.1.memory
  constructor
  · exact fun later ran => consistent_opens (undisturbed_run_keeps kept ran).1
  · intro retry _ succeeds
    rcases harmless_result opened harmless fails with same | same
    · rw [same]
      exact succeeds
    · rw [same]
      exact creatable_take_id opened succeeds

def simpleTable (name : Name) : TableRequest := ⟨name, [⟨[97], .ints, 4, false⟩], [], .rowFormat⟩

theorem simple_table_columns (kit : TrxKit) (name : Name) :
    HasValidColumns kit (simpleTable name) := by
  cases kit <;> rfl

theorem left_file_blocks {next : Db} {name : Name}
    (opened : db.memory = some memory) (still_opened : next.memory.isSome = true)
    (free : ¬ FailsBeforeWriting db (simpleTable name) none) (data_free : name ∉ db.dataFiles)
    (left : name ∈ next.metaFiles.map Prod.fst) : ¬ LeavesNoTrace db next name := by
  rintro ⟨_, retry⟩
  obtain ⟨later, later_opened⟩ := isSome_iff_exists.mp still_opened
  have succeeds : (createTable db (simpleTable name) none).1 = true :=
    (create_table_none_iff opened).mpr ⟨free, simple_table_columns db.kit name, data_free⟩
  have again := (create_table_none_iff later_opened).mp (retry (simpleTable name) rfl succeeds)
  exact again.1 (.inr (.inr (.inr (.inr (.inl left)))))

structure StrayColumns (db : Db) (tableId : Nat) : Prop where
  present : ∃ row ∈ db.catalogRows, row.tableId = tableId
  columns : ∀ row ∈ db.catalogRows, row.tableId = tableId → row.field?.isSome

theorem heading_none_of_field {row : CatalogRow} (column : row.field?.isSome) :
    row.heading? = none ∧ row.index? = none := by
  cases row <;> simp_all [CatalogRow.field?, CatalogRow.heading?, CatalogRow.index?]

theorem finish_table_bare {tableId : Nat} {pending : PendingTable} {name : Name}
    {format : StorageFormat} (heading : pending.heading = some (name, format))
    (visible : isBlank name = false) (fields : pending.fields ≠ []) (bare : pending.indexes = []) :
    ∃ table, finishTable tableId pending = some table ∧ table.tableId = tableId ∧
      table.name = name ∧ table.indexes = [] ∧ table.fields.length = pending.fields.length := by
  have kept : ((pending.fields.insertionSort fun left right => left.1 ≤ right.1).map
      Prod.snd).isEmpty = false := by
    rw [isEmpty_eq_false_iff_exists_mem]
    obtain ⟨field, present⟩ := exists_mem_of_ne_nil _ fields
    exact ⟨field.2, mem_map.mpr ⟨field, (mem_insertionSort _).mpr present, rfl⟩⟩
  simp only [finishTable, heading, visible, kept, bare, mapM_nil]
  exact ⟨_, rfl, rfl, rfl, rfl, by simp [length_insertionSort]⟩

variable {table : TableMeta}

theorem stray_columns_join (stray : StrayColumns db table.tableId)
    (formed : WellFormed table) (bare : table.indexes = []) :
    ∃ wrong, finishTable table.tableId
        (pendingTable (db.catalogRows ++ tableRows table) table.tableId) = some wrong ∧
      wrong.tableId = table.tableId ∧ wrong.name = table.name ∧ wrong.indexes = [] ∧
      wrong.fields.length ≠ table.fields.length := by
  let strays := db.catalogRows.filter fun row => row.tableId = table.tableId
  have column : ∀ row ∈ strays, row.field?.isSome := by
    intro row listed
    obtain ⟨stored, same_id⟩ := mem_filter.mp listed
    exact stray.columns row stored (of_decide_eq_true same_id)
  have no_headings : strays.filterMap CatalogRow.heading? = [] :=
    filterMap_eq_nil_iff.mpr fun row listed => (heading_none_of_field (column row listed)).1
  have no_indexes : strays.filterMap CatalogRow.index? = [] :=
    filterMap_eq_nil_iff.mpr fun row listed => (heading_none_of_field (column row listed)).2
  have some_stray : 0 < (strays.filterMap CatalogRow.field?).length := by
    obtain ⟨row, stored, same_id⟩ := stray.present
    have listed : row ∈ strays := mem_filter.mpr ⟨stored, decide_eq_true same_id⟩
    obtain ⟨field, found⟩ := isSome_iff_exists.mp (column row listed)
    exact length_pos_of_mem (mem_filterMap.mpr ⟨row, listed, found⟩)
  obtain ⟨pending, rows⟩ : ∃ pending,
      pending = (strays ++ tableRows table).foldl PendingTable.add .empty := ⟨_, rfl⟩
  have joined : pendingTable (db.catalogRows ++ tableRows table) table.tableId = pending := by
    rw [pendingTable, filter_append, filter_own_rows fun row listed => table_rows_id listed, rows]
  have heading : pending.heading = some (table.name, table.storageFormat) := by
    rw [rows, add_rows, filterMap_append, no_headings, table_rows_headings,
      catalog_name_of_fits formed.name_fits]
    rfl
  have fields : pending.fields.length
      = (strays.filterMap CatalogRow.field?).length + table.fields.length := by
    simp [rows, add_rows, table_rows_fields formed.fields_fit, PendingTable.empty]
  have indexes : pending.indexes = [] := by
    simp [rows, add_rows, no_indexes, table_rows_indexes, bare, PendingTable.empty]
  have nonempty : pending.fields ≠ [] := by
    intro none_left
    rw [none_left, length_nil] at fields
    omega
  obtain ⟨wrong, finished, same_id, same_name, unindexed, same_length⟩ :=
    finish_table_bare heading formed.name_visible nonempty indexes
  exact ⟨wrong, joined ▸ finished, same_id, same_name, unindexed, by omega⟩

def spareName (number : Nat) : Name :=
  [97, UInt8.ofNat number, UInt8.ofNat (number / 256), UInt8.ofNat (number / 65536),
    UInt8.ofNat (number / 16777216)]

theorem spare_name_inj {left right : Nat} (left_small : left < 4294967296)
    (right_small : right < 4294967296) (same : spareName left = spareName right) :
    left = right := by
  simp only [spareName, cons.injEq, true_and, and_true, ← UInt8.toNat_inj,
    UInt8.toNat_ofNat'] at same
  omega

theorem exists_spare_name (used : List Name) (few : used.length < 4294967295) :
    ∃ number, spareName number ∉ used := by
  by_contra! all_used
  have distinct : ((range (used.length + 1)).map spareName).Nodup := by
    refine (nodup_map_iff_inj_on nodup_range).mpr ?_
    intro left left_listed right right_listed same
    have left_small := mem_range.mp left_listed
    have right_small := mem_range.mp right_listed
    exact spare_name_inj (by omega) (by omega) same
  have covered : (range (used.length + 1)).map spareName ⊆ used := by
    intro name listed
    obtain ⟨number, _, rfl⟩ := mem_map.mp listed
    exact all_used number
  have shorter := (subperm_of_subset distinct covered).length_le
  rw [length_map, length_range] at shorter
  omega

theorem created_length_lt {tables : List TableMeta} {bound : Nat}
    (distinct : (tables.map tableId).Nodup)
    (below : ∀ table ∈ tables, table.tableId < bound) : tables.length ≤ bound := by
  have covered : tables.map tableId ⊆ range bound := by
    intro tableId listed
    obtain ⟨table, created, rfl⟩ := mem_map.mp listed
    exact mem_range.mpr (below table created)
  simpa using (subperm_of_subset distinct covered).length_le

theorem spare_request (name : Nat) : WellNamed (simpleTable (spareName name)) where
  name_fits := by simp [simpleTable, spareName]
  columns_fit := by simp [simpleTable]
  keys_distinct := by simp [simpleTable]
  keys_are_columns := by simp [simpleTable]

theorem spare_table_succeeds {number : Nat} (consistent : Consistent db)
    (new : spareName number ∉ db.created.map name) :
    (createTable db (simpleTable (spareName number)) none).1 = true := by
  obtain ⟨memory, opened, same, _⟩ := consistent.memory
  refine (create_table_none_iff opened).mpr ⟨?_, simple_table_columns _ _, ?_⟩
  · simp only [FailsBeforeWriting, opened, any_some, decide_eq_true_eq, not_or]
    refine ⟨?_, ?_, ?_, ?_, ?_, ?_⟩
    · simp [simpleTable, spareName, catalogTableName]
    · intro listed
      obtain ⟨table, open_table, named⟩ := mem_map.mp listed
      exact new (mem_map.mpr ⟨table, (same table).mp open_table, named⟩)
    · simp [simpleTable, spareName, isBlank]
    · simp [simpleTable]
    · intro listed
      obtain ⟨file, stored, named⟩ := mem_map.mp listed
      obtain ⟨table, created, rfl⟩ := consistent.meta_files file stored
      exact new (mem_map.mpr ⟨table, created, named⟩)
    · simp
  · exact fun listed => new (consistent.data_files _ listed)

theorem loads_with_other {wrong : TableMeta} (consistent : Consistent db)
    (formed : WellFormed table) (bare : table.indexes = [])
    (new_name : table.name ∉ db.created.map name)
    (new_id : ∀ other ∈ db.created, other.tableId ≠ table.tableId)
    (finished : finishTable table.tableId
      (pendingTable (db.catalogRows ++ tableRows table) table.tableId) = some wrong)
    (same_id : wrong.tableId = table.tableId) (same_name : wrong.name = table.name)
    (unindexed : wrong.indexes = []) :
    Loads (db.takeId.addTable table).shutdown (db.created ++ [wrong]) := by
  have before := consistent_loads (shutdown_consistent consistent) (shutdown_stored db)
  have stored := shutdown_stored (db.takeId.addTable table)
  have rows : (db.takeId.addTable table).shutdown.catalogRows
      = db.catalogRows ++ tableRows table := by
    rw [shutdown_rows, add_table_catalog, register_rows_bare bare]
    rfl
  have wrong_files : indexFilesOf wrong = [] := by
    simp [indexFilesOf, unindexed]
  have files : (db.created ++ [wrong]).flatMap indexFilesOf = db.created.flatMap indexFilesOf := by
    simp [wrong_files]
  constructor
  case present => exact stored.present
  case loaded =>
    rw [stored_rows_eq stored, rows]
    refine load_tables_perm ?_ (forall_mem_append.mpr ⟨?_, forall_mem_singleton.mpr ?_⟩) ?_
    · rw [map_append, nodup_append']
      refine ⟨consistent.ids_distinct, by simp, ?_⟩
      simpa [same_id] using new_id
    · intro other created
      have other_formed := consistent.formed other created
      refine ⟨other_formed.id_pos, ?_⟩
      rw [pendingTable, filter_append, consistent.rows_of other created, filter_other_rows,
        append_nil]
      · exact finish_table_rows other_formed
      · intro row of_table
        rw [table_rows_id of_table]
        exact (new_id other created).symm
    · rw [same_id]
      exact ⟨formed.id_pos, finished⟩
    · intro row present heads
      rw [map_append]
      rcases mem_append.mp present with present | of_table
      · exact mem_append_left _ (consistent.headed row present heads)
      · exact mem_append_right _ (by simp [table_rows_id of_table, same_id])
  case openable =>
    constructor
    case names_distinct =>
      rw [map_append, nodup_append']
      exact ⟨consistent.names_distinct, by simp, by simpa [same_name] using new_name⟩
    case files_distinct => exact files ▸ consistent.files_distinct
    case has_field =>
      exact forall_mem_append.mpr ⟨before.openable.has_field, by simp [unindexed]⟩
    case headers => exact forall_mem_append.mpr ⟨before.openable.headers, by simp [wrong_files]⟩
  case files_known => exact files ▸ before.files_known
  case metas_known =>
    rw [map_append]
    refine forall_mem_append.mpr ⟨?_, forall_mem_singleton.mpr ?_⟩
    · intro file present
      obtain ⟨other, same, other_formed, known⟩ := before.metas_known file present
      exact ⟨other, same, other_formed, mem_append_left _ known⟩
    · exact ⟨table, rfl, formed, mem_append_right _ (by simp [same_name])⟩

theorem reused_id_breaks (consistent : Consistent db)
    (opened : db.memory = some memory) (fits : memory.nextTableId < 2147483647)
    (stray : StrayColumns db memory.nextTableId) :
    ∃ later, Reaches step Undisturbed db later ∧ ¬ OpensCreated later := by
  obtain ⟨same_memory, same_opened, same, positive, _, above⟩ := consistent.memory
  obtain rfl : memory = same_memory := some.inj (opened.symm.trans same_opened)
  have few := created_length_lt consistent.ids_distinct above
  obtain ⟨number, new⟩ := exists_spare_name (db.created.map name) (by
    rw [length_map]
    omega)
  have succeeds := spare_table_succeeds consistent new
  obtain ⟨again, table, again_opened, _, visible, columns, made, result⟩ :=
    create_table_success succeeds
  obtain rfl : memory = again := some.inj (opened.symm.trans again_opened)
  have formed := table_init_formed made positive visible columns (spare_request number)
  have id_fits : db.idFits = true := by
    simpa [Db.idFits, opened] using fits
  have created_step : step db (.createTable (simpleTable (spareName number)) none)
      = some (db.takeId.addTable table) := (if_pos id_fits).trans (congrArg some result)
  have careful : Undisturbed db (.createTable (simpleTable (spareName number)) none) :=
    .inl ⟨spare_request number, succeeds⟩
  have restarts : Undisturbed (db.takeId.addTable table) .restart := .inl trivial
  have still_open : (db.takeId.addTable table).memory.isSome = true := by
    simp [Db.addTable, Db.takeId, Db.appendRows, opened]
  have ran : Reaches step Undisturbed db (db.takeId.addTable table).shutdown.init :=
    .tail (.tail .refl careful created_step) restarts (if_pos still_open)
  refine ⟨_, ran, ?_⟩
  obtain ⟨fields, _, rfl⟩ := map_eq_some_iff.mp made
  have new_id : ∀ other ∈ db.created, other.tableId ≠ memory.nextTableId :=
    fun other created => (above other created).ne
  obtain ⟨wrong, finished, same_id, same_name, unindexed, longer⟩ :=
    stray_columns_join stray formed rfl
  obtain ⟨later, initialised, later_same, _⟩ := init_of_loads
    (loads_with_other consistent formed rfl new new_id finished same_id same_name unindexed)
  rintro ⟨memory, later_opened, as_created⟩
  rw [initialised] at later_opened as_created
  obtain rfl : later = memory := some.inj later_opened
  have created := (as_created _).mpr (mem_append_right db.created (mem_singleton.mpr rfl))
  rcases mem_append.mp ((later_same _).mp created) with old | as_wrong
  · exact new_id _ old rfl
  · exact longer (congrArg (fun table => table.fields.length) (mem_singleton.mp as_wrong)).symm

def namelessTable : TableRequest := ⟨[], [], [], .rowFormat⟩

section

variable (consistent : Consistent db)
include consistent

theorem nameless_takes_id :
    createTable db namelessTable none = (false, db.takeId) := by
  obtain ⟨memory, opened, same, _⟩ := consistent.memory
  have free : ¬ (namelessTable.name = catalogTableName
      ∨ namelessTable.name ∈ memory.openedTables.map name) := by
    rintro (reserved | listed)
    · exact absurd reserved (by decide)
    · obtain ⟨table, open_table, named⟩ := mem_map.mp listed
      have visible := (consistent.formed table ((same table).mp open_table)).name_visible
      rw [named] at visible
      exact absurd visible (by decide)
  unfold createTable
  simp only [opened, take_id_eq opened]
  rw [if_neg free]
  rfl

theorem reach_next_id {target : Nat} (opened : db.memory = some memory)
    (behind : memory.nextTableId ≤ target) (fits : target < 2147483647) :
    ∃ later last, Reaches step Undisturbed db later ∧ Consistent later ∧
      later.memory = some last ∧ last.nextTableId = target ∧
      later.catalogRows = db.catalogRows := by
  obtain ⟨distance, rfl⟩ := Nat.exists_eq_add_of_le behind
  induction distance generalizing db memory with
  | zero => exact ⟨db, memory, .refl, consistent, opened, rfl, rfl⟩
  | succ distance ih =>
    have id_fits : db.idFits = true := by
      simp only [Db.idFits, opened, any_some, decide_eq_true_eq]
      omega
    have result := nameless_takes_id consistent
    have taken : step db (.createTable namelessTable none) = some db.takeId :=
      (if_pos id_fits).trans (congrArg (fun pair => some pair.2) result)
    have harmless : Harmless db namelessTable none :=
      .inl (.inr (.inr (.inl (by decide))))
    have met : Undisturbed db (.createTable namelessTable none) :=
      .inr ⟨_, _, rfl, congrArg Prod.fst result, harmless⟩
    have next_opened : db.takeId.memory
        = some { memory with nextTableId := memory.nextTableId + 1 } :=
      congrArg Db.memory (take_id_eq opened)
    obtain ⟨later, last, ran, kept, later_opened, reached, rows⟩ :=
      ih (consistent_take_id consistent id_fits) next_opened (Nat.le_add_right _ _)
        (by simp only; omega)
    refine ⟨later, last, reaches_trans (.tail .refl met taken) ran, kept, later_opened, ?_, rows⟩
    simp only at reached
    omega

theorem init_next_id {bound : Nat} (stored : Stored db) (positive : 0 < bound)
    (below : ∀ table ∈ db.created, table.tableId < bound) :
    ∃ memory, db.init.memory = some memory ∧ memory.nextTableId ≤ bound := by
  obtain ⟨memory, initialised, _, _, _, least⟩ :=
    init_of_loads (consistent_loads consistent stored)
  exact ⟨memory, congrArg Db.memory initialised, least bound positive below⟩

theorem consistent_append_columns {rows : List CatalogRow} {tableId : Nat}
    (own : ∀ row ∈ rows, row.tableId = tableId) (columns : ∀ row ∈ rows, row.field?.isSome)
    (other : ∀ table ∈ db.created, table.tableId ≠ tableId) :
    Consistent (db.appendRows rows) :=
  { consistent with
    rows_of := by
      intro table created
      rw [append_rows_catalog, filter_append, consistent.rows_of table created,
        filter_other_rows, append_nil]
      intro row listed
      rw [own row listed]
      exact (other table created).symm
    headed := by
      intro row present heads
      rw [append_rows_catalog] at present
      rcases mem_append.mp present with present | present
      · exact consistent.headed row present heads
      · rw [(heading_none_of_field (columns row present)).1] at heads
        exact absurd heads (by simp) }

end

/-- A restart lowers the next id, and failing statements raise it again. -/
theorem stray_columns_break {tableId : Nat} (consistent : Consistent db) (positive : 0 < tableId)
    (fits : tableId < 2147483647) (above : ∀ table ∈ db.created, table.tableId < tableId)
    (stray : StrayColumns db tableId) :
    ∃ later, Reaches step Undisturbed db later ∧ ¬ OpensCreated later := by
  obtain ⟨memory, opened, _⟩ := consistent.memory
  have shut := shutdown_consistent consistent
  have stored := shutdown_stored db
  obtain ⟨restarted, restarted_rows, _⟩ := init_keeps shut stored
  obtain ⟨lowered, lowered_opened, lower⟩ := init_next_id shut stored positive above
  obtain ⟨later, last, ran, later_consistent, later_opened, reached, later_rows⟩ :=
    reach_next_id restarted lowered_opened lower fits
  have all_rows : later.catalogRows = db.catalogRows := by
    rw [later_rows]
    exact (congrArg (map Prod.fst) restarted_rows).trans (shutdown_rows db)
  have later_stray : StrayColumns later last.nextTableId := by
    rw [reached]
    exact ⟨all_rows ▸ stray.present, all_rows ▸ stray.columns⟩
  obtain ⟨broken, broken_ran, broken_opens⟩ :=
    reused_id_breaks later_consistent later_opened (reached ▸ fits) later_stray
  have restarts : Undisturbed db .restart := .inl trivial
  have restart_ran : Reaches step Undisturbed db db.shutdown.init :=
    .tail .refl restarts (if_pos (by simp [opened]))
  exact ⟨broken, reaches_trans restart_ran (reaches_trans ran broken_ran), broken_opens⟩

theorem register_take_columns {count : Nat} (bare : table.indexes = [])
    (early : count < (registerRows table).length) :
    ∀ row ∈ (registerRows table).take count, row.tableId = table.tableId ∧ row.field?.isSome := by
  intro row present
  have columns_only : (registerRows table).take count = (table.fields.zipIdx.map fun entry =>
      columnRow table entry.1 entry.2).take count := by
    rw [register_rows_bare bare, tableRows, bare, map_nil, take_append_of_le_length]
    simpa [register_rows_bare bare, tableRows, bare, Nat.lt_succ_iff] using early
  rw [columns_only] at present
  obtain ⟨entry, _, rfl⟩ := mem_map.mp (mem_of_mem_take present)
  exact ⟨rfl, rfl⟩

/-- A registration that fails after its first row: after a restart the id is given again, and
the columns that stayed join the table that gets it. -/
theorem left_rows_break {count : Nat}
    (holds : Consistent db ∧ NoStrayRows db) (opened : db.memory = some memory)
    (fits : db.idFits = true) (taken : table.tableId = memory.nextTableId)
    (bare : table.indexes = []) (some_row : 0 < count)
    (early : count < (registerRows table).length) :
    ∃ later, Reaches step Undisturbed (db.takeId.appendRows ((registerRows table).take count)) later ∧
      ¬ OpensCreated later := by
  obtain ⟨consistent, clean⟩ := holds
  obtain ⟨same_memory, same_opened, same, positive, _, above⟩ := consistent.memory
  obtain rfl : memory = same_memory := some.inj (opened.symm.trans same_opened)
  have id_fits : memory.nextTableId < 2147483647 := by
    simpa [Db.idFits, opened] using fits
  have left := register_take_columns bare early
  have other : ∀ created ∈ db.takeId.created, created.tableId ≠ table.tableId := by
    intro created present
    have below := above created present
    omega
  -- the database is still consistent, with rows of an id that no table has
  have kept := consistent_append_columns (consistent_take_id consistent fits)
    (fun row present => (left row present).1) (fun row present => (left row present).2) other
  have rows : (db.takeId.appendRows ((registerRows table).take count)).catalogRows
      = db.catalogRows ++ (registerRows table).take count := append_rows_catalog _ _
  refine stray_columns_break kept positive id_fits above ⟨?_, ?_⟩
  · obtain ⟨row, present⟩ : ∃ row, row ∈ (registerRows table).take count := by
      refine exists_mem_of_length_pos ?_
      rw [length_take]
      omega
    refine ⟨row, ?_, (left row present).1.trans taken⟩
    rw [rows]
    exact mem_append_right _ present
  · intro row present same_id
    rcases mem_append.mp (rows ▸ present) with present | present
    · obtain ⟨created, listed, created_id⟩ := mem_map.mp (clean row present)
      have below := above created listed
      omega
    · exact (left row present).2

/-- A statement that gets past opening its metadata file is refused neither for its name nor
for a file, and a simple table of its name could be created. -/
theorem simple_table_free
    (consistent : Consistent db) (late : ¬ FailsBeforeWriting db request fault) :
    ¬ FailsBeforeWriting db (simpleTable request.name) none ∧ request.name ∉ db.dataFiles := by
  obtain ⟨memory, opened, same, _⟩ := consistent.memory
  simp only [FailsBeforeWriting, opened, any_some, decide_eq_true_eq, not_or] at late ⊢
  obtain ⟨unreserved, unopened, visible, _, unwritten, _⟩ := late
  refine ⟨⟨unreserved, unopened, visible, by simp [simpleTable], unwritten, by simp⟩, ?_⟩
  intro listed
  obtain ⟨table, created, named⟩ := mem_map.mp (consistent.data_files _ listed)
  exact unopened (mem_map.mpr ⟨table, (same table).mpr created, named⟩)

theorem harmful_leaves_trace (holds : Consistent db ∧ NoStrayRows db) (fits : db.idFits = true)
    (fails : (createTable db request fault).1 = false) (harmful : ¬ Harmless db request fault) :
    ¬ LeavesNoTrace db (createTable db request fault).2 request.name := by
  obtain ⟨late, not_first⟩ := not_or.mp harmful
  obtain ⟨memory, opened, _⟩ := holds.1.memory
  obtain ⟨free, data_free⟩ := simple_table_free holds.1 late
  have still_open : db.takeId.memory.isSome = true := by
    simp [Db.takeId, opened]
  have data_same : db.takeId.dataFiles = db.dataFiles := rfl
  have blocked : ∀ (next : Db) (content : Option TableMeta), next.memory = db.takeId.memory →
      next.metaFiles = db.metaFiles ++ [(request.name, content)] →
        ¬ LeavesNoTrace db next request.name := by
    intro next content same_memory files
    refine left_file_blocks opened (same_memory ▸ still_open) free data_free ?_
    simp [files]
  rw [create_table_late opened late] at fails ⊢
  cases made : init db.kit memory.nextTableId request with
  | none => exact blocked _ none rfl rfl
  | some table =>
    have columns : HasValidColumns db.kit request :=
      (table_init_isSome db.kit memory.nextTableId request).mp (by simp [made])
    obtain ⟨fields, _, rfl⟩ := map_eq_some_iff.mp made
    simp only [made] at fails ⊢
    by_cases unwritten : fault = some .writeMeta
    · rw [if_pos unwritten]
      exact blocked _ none rfl rfl
    · rw [if_neg unwritten] at fails ⊢
      simp only [createData, data_same, data_free, if_false] at fails ⊢
      cases fault with
      | none => exact absurd fails (by simp)
      | some kind =>
        cases kind with
        | openMeta => exact absurd fails (by simp)
        | writeMeta => exact absurd rfl unwritten
        | createData => exact blocked _ _ rfl rfl
        | writeData => exact blocked _ _ rfl rfl
        | registerRow position =>
          have later_row : 0 < position := by
            refine Nat.pos_of_ne_zero fun first => not_first ?_
            exact ⟨columns, data_free, by rw [first]⟩
          simp only at fails ⊢
          split at fails
          next early =>
            rw [if_pos early]
            rintro ⟨always_opens, _⟩
            obtain ⟨later, ran, broken⟩ :=
              left_rows_break holds opened fits rfl rfl later_row early
            exact broken (always_opens later ran)
          next => exact absurd fails (by simp)

/-- A failed statement leaves no trace exactly if it fails before it writes anything or at the
first row of the catalog. -/
theorem failed_create_leaves_no_trace_iff {kit : TrxKit} {pageOf : Nat → Nat} {db next : Db}
    {request : TableRequest} {fault : Option Fault}
    (reached : Reaches step Undisturbed (Db.fresh kit pageOf) db)
    (taken : step db (.createTable request fault) = some next)
    (fails : (createTable db request fault).1 = false) :
    LeavesNoTrace db next request.name ↔ Harmless db request fault := by
  have holds := undisturbed_run_keeps ⟨consistent_fresh kit pageOf, fresh_no_stray_rows kit pageOf⟩
    reached
  obtain ⟨fits, ⟨⟩⟩ := ite_none_right_eq_some.mp taken
  constructor
  · intro no_trace
    by_contra harmful
    exact harmful_leaves_trace holds fits fails harmful no_trace
  · exact harmless_leaves_no_trace holds fits fails

def emptyColumnTable : TableRequest := ⟨[116], [⟨[97], .chars, 0, false⟩], [], .rowFormat⟩

theorem empty_column_with_closed_file_leaves_no_trace :
    ∃ next, step (Db.fresh .mvcc catalogPage) (.createTable emptyColumnTable (some .openMeta)) = some next ∧
      LeavesNoTrace (Db.fresh .mvcc catalogPage) next emptyColumnTable.name := by
  refine ⟨_, rfl, (failed_create_leaves_no_trace_iff .refl rfl ?_).mpr ?_⟩
  · decide +kernel
  · decide +kernel

/-- The empty metadata file stays: `t` cannot be created any more and the next start fails. -/
theorem empty_column_leaves_trace :
    ¬ ∀ (kit : TrxKit) (db next : Db) (request : TableRequest) (fault : Option Fault),
      Reaches step Undisturbed (Db.fresh kit catalogPage) db →
      step db (.createTable request fault) = some next →
      (createTable db request fault).1 = false → LeavesNoTrace db next request.name := by
  intro no_trace
  obtain ⟨opens, _⟩ := no_trace .mvcc (Db.fresh .mvcc catalogPage) _ emptyColumnTable none .refl rfl
    (by decide +kernel)
  have restarts : Undisturbed (createTable (Db.fresh .mvcc catalogPage) emptyColumnTable none).2 .restart :=
    .inl trivial
  have broken := opens _ (.tail .refl restarts rfl)
  exact absurd broken (by decide +kernel)

end CsuDbms.SchemaCatalogModel
