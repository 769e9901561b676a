import CsuDbms.ListTraversal
import CsuDbms.SchemaCatalogModel

/-!
# What loading makes of the rows of a table

A table whose names fit into the catalog comes back from its own rows, whatever
other tables have rows around it. Rows without a table row are passed over.
-/

namespace CsuDbms.SchemaCatalogModel

open ListTraversal List CatalogRow PendingTable

def CatalogRow.heading? : CatalogRow → Option (Name × StorageFormat)
  | .table _ name format => some (name, format)
  | _ => none

def CatalogRow.field? : CatalogRow → Option (Nat × FieldMeta)
  | .column _ ordinal field _ => some (ordinal, field)
  | _ => none

def CatalogRow.key? : CatalogRow → Option (Nat × Name)
  | .column _ _ field (some key) => some (key, field.name)
  | _ => none

def CatalogRow.index? : CatalogRow → Option (Name × Name)
  | .index _ name field => some (name, field)
  | _ => none

theorem add_rows (rows : List CatalogRow) (pending : PendingTable) :
    rows.foldl add pending =
      { heading := (rows.filterMap heading?).getLast?.or pending.heading
        fields := pending.fields ++ rows.filterMap field?
        primaryKeys := (rows.filterMap key?).foldl
          (fun keys key => setPrimaryKey keys key.1 key.2) pending.primaryKeys
        indexes := pending.indexes ++ rows.filterMap index? } := by
  induction rows generalizing pending with
  | nil => simp
  | cons row rest ih =>
    rw [foldl_cons, ih]
    rcases row with ⟨_, _, field, key⟩ | _ | _
    · cases key <;> simp [add, heading?, field?, key?, index?, filterMap_cons]
    · simp [add, heading?, field?, key?, index?, filterMap_cons]
    · simp [add, heading?, field?, key?, index?, filterMap_cons, getLast?_cons]

/-- What a table needs to come back from the catalog as it was: names that fit, primary keys
that are columns of their own, and indexes on columns. -/
structure WellFormed (table : TableMeta) : Prop where
  id_pos : 0 < table.tableId
  name_fits : table.name.length ≤ 128
  name_visible : isBlank table.name = false
  fields_present : table.fields ≠ []
  fields_fit : ∀ field ∈ table.fields, field.name.length ≤ 128
  offsets_ordered : table.fields.Pairwise fun left right => left.offset ≤ right.offset
  keys_distinct : table.primaryKeys.Nodup
  keys_are_fields : ∀ key ∈ table.primaryKeys, ∃ field ∈ table.fields, field.name = key
  indexes_fit : ∀ index ∈ table.indexes, index.name.length ≤ 128 ∧ isBlank index.name = false
  indexes_have_field : ∀ index ∈ table.indexes,
    ∃ field, table.field index.field = some field ∧ field.name = index.field

def tableRows (table : TableMeta) : List CatalogRow :=
  table.fields.zipIdx.map (fun entry => columnRow table entry.1 entry.2) ++
    tableRow table :: table.indexes.map (indexRow table)

theorem catalog_name_of_fits {name : Name} (fits : name.length ≤ 128) : catalogName name = name :=
  take_of_length_le fits

variable {table : TableMeta}

theorem register_rows_bare (bare : table.indexes = []) :
    registerRows table = tableRows table := by
  simp [registerRows, tableRows, bare]

theorem table_rows_add_index (table : TableMeta) (index : IndexMeta) :
    tableRows (table.addIndex index) = tableRows table ++ [indexRow table index] := by
  simp [tableRows, TableMeta.addIndex, columnRow, tableRow, indexRow]

theorem table_rows_id {row : CatalogRow} (present : row ∈ tableRows table) :
    row.tableId = table.tableId := by
  simp only [tableRows, mem_append, mem_cons, mem_map] at present
  rcases present with ⟨entry, _, rfl⟩ | rfl | ⟨index, _, rfl⟩
  · rfl
  · rfl
  · rfl

theorem table_rows_headings (table : TableMeta) :
    (tableRows table).filterMap heading?
      = [(catalogName table.name, table.storageFormat)] := by
  simp [tableRows, filterMap_map, Function.comp_def, columnRow, tableRow, indexRow,
    heading?]

theorem table_rows_indexes (table : TableMeta) :
    (tableRows table).filterMap index?
      = table.indexes.map fun index => (catalogName index.name, catalogName index.field) := by
  simp [tableRows, filterMap_cons, filterMap_map, Function.comp_def, columnRow,
    tableRow, indexRow, index?]

theorem table_rows_fields (fit : ∀ field ∈ table.fields, field.name.length ≤ 128) :
    (tableRows table).filterMap field?
      = table.fields.zipIdx.map fun entry => (entry.2, entry.1) := by
  have columns : ∀ entry ∈ table.fields.zipIdx,
      (columnRow table entry.1 entry.2).field? = some (entry.2, entry.1) := by
    intro entry present
    have fits := fit entry.1 (fst_mem_of_mem_zipIdx present)
    simp [columnRow, field?, catalog_name_of_fits fits]
  simp only [tableRows, filterMap_append, filterMap_map, filterMap_cons]
  rw [filterMap_congr (g := fun entry => some (entry.2, entry.1)) columns]
  simp [Function.comp_def, tableRow, indexRow, field?]

theorem set_primary_key_length (keys : List Name) (ordinal : Nat) (name : Name) :
    (setPrimaryKey keys ordinal name).length = max keys.length (ordinal + 1) := by
  simp only [setPrimaryKey, length_set, length_append, length_replicate]
  omega

theorem set_primary_key_same (keys : List Name) (ordinal : Nat) (name : Name) :
    (setPrimaryKey keys ordinal name)[ordinal]? = some name := by
  have within : ordinal < (keys ++ replicate (ordinal + 1 - keys.length) []).length := by
    simp only [length_append, length_replicate]
    omega
  simp [setPrimaryKey, getElem?_set_self within]

variable {keys : List Name}

theorem set_primary_key_other {ordinal position : Nat} (name : Name)
    (other : ordinal ≠ position) (within : position < keys.length) :
    (setPrimaryKey keys ordinal name)[position]? = keys[position]? := by
  rw [setPrimaryKey, getElem?_set_ne other, getElem?_append_left within]

theorem set_keys_agree (pairs : List (Nat × Name))
    (placed : ∀ pair ∈ pairs, keys[pair.1]? = some pair.2) (found : List Name)
    (short : found.length ≤ keys.length) :
    let result := pairs.foldl (fun keys key => setPrimaryKey keys key.1 key.2) found
    result.length ≤ keys.length ∧
      ∀ position < keys.length,
        (found[position]? = keys[position]? ∨ ∃ pair ∈ pairs, pair.1 = position) →
          result[position]? = keys[position]? := by
  induction pairs generalizing found with
  | nil =>
    refine ⟨short, fun position _ known => ?_⟩
    simpa using known
  | cons pair rest ih =>
    have here := placed pair (by simp)
    have within : pair.1 < keys.length := (List.getElem?_eq_some_iff.mp here).1
    have short_next : (setPrimaryKey found pair.1 pair.2).length ≤ keys.length := by
      rw [set_primary_key_length]
      omega
    obtain ⟨short_last, agree⟩ := ih (fun other present => placed other (by simp [present]))
      (setPrimaryKey found pair.1 pair.2) short_next
    refine ⟨short_last, fun position bound known => agree position bound ?_⟩
    by_cases same : pair.1 = position
    · subst same
      exact .inl ((set_primary_key_same found pair.1 pair.2).trans here.symm)
    · rcases known with known | ⟨other, present, at_position⟩
      · have found_there : position < found.length := by
          by_contra outside
          rw [getElem?_eq_none (by omega)] at known
          exact absurd (getElem?_eq_none_iff.mp known.symm) (by omega)
        exact .inl ((set_primary_key_other pair.2 same found_there).trans known)
      · rcases mem_cons.mp present with rfl | present
        · exact absurd at_position same
        · exact .inr ⟨other, present, at_position⟩

theorem set_keys_complete {pairs : List (Nat × Name)}
    (placed : ∀ pair ∈ pairs, keys[pair.1]? = some pair.2)
    (complete : ∀ position < keys.length, ∃ pair ∈ pairs, pair.1 = position) :
    pairs.foldl (fun keys key => setPrimaryKey keys key.1 key.2) [] = keys := by
  obtain ⟨short, agree⟩ := set_keys_agree pairs placed [] (Nat.zero_le _)
  refine ext_getElem? fun position => ?_
  by_cases bound : position < keys.length
  · exact agree position bound (.inr (complete position bound))
  · rw [getElem?_eq_none (by omega), getElem?_eq_none (by omega)]

theorem table_rows_keys (fit : ∀ field ∈ table.fields, field.name.length ≤ 128) :
    (tableRows table).filterMap key?
      = table.fields.filterMap fun field =>
          (table.primaryKeys.idxOf? field.name).map fun position => (position, field.name) := by
  have columns : ∀ entry ∈ table.fields.zipIdx,
      (columnRow table entry.1 entry.2).key?
        = (table.primaryKeys.idxOf? entry.1.name).map fun position =>
            (position, entry.1.name) := by
    intro entry present
    have fits := fit entry.1 (fst_mem_of_mem_zipIdx present)
    cases placed : table.primaryKeys.idxOf? entry.1.name <;>
      simp [columnRow, key?, catalog_name_of_fits fits, placed]
  have others : (tableRow table :: table.indexes.map (indexRow table)).filterMap
      key? = [] := by
    simp [tableRow, indexRow, key?]
  rw [tableRows, filterMap_append, others, append_nil, filterMap_map,
    Function.comp_def, filterMap_congr columns]
  conv_rhs => rw [← zipIdx_map_fst 0 table.fields, filterMap_map]
  rfl

theorem table_rows_restore_keys (formed : WellFormed table) :
    ((tableRows table).filterMap key?).foldl
      (fun keys key => setPrimaryKey keys key.1 key.2) [] = table.primaryKeys := by
  rw [table_rows_keys formed.fields_fit]
  refine set_keys_complete ?_ ?_
  · intro pair present
    obtain ⟨field, _, placed⟩ := mem_filterMap.mp present
    obtain ⟨position, found, rfl⟩ := Option.map_eq_some_iff.mp placed
    obtain ⟨bound, same, _⟩ := idxOf?_eq_some_iff.mp found
    exact List.getElem?_eq_some_iff.mpr ⟨bound, same⟩
  · intro position bound
    obtain ⟨field, present, named⟩ :=
      formed.keys_are_fields _ (getElem_mem bound)
    have found : table.primaryKeys.idxOf? field.name = some position := by
      refine idxOf?_eq_some_iff.mpr ⟨bound, named.symm, fun earlier before same => ?_⟩
      have positions := (formed.keys_distinct.getElem_inj_iff).mp (same.trans named)
      omega
    exact ⟨(position, field.name),
      mem_filterMap.mpr ⟨field, present, by simp [found]⟩, rfl⟩

theorem load_index_eq {index : IndexMeta} {field : FieldMeta}
    (visible : isBlank index.name = false) (found : table.field index.field = some field)
    (named : field.name = index.field) : loadIndex table
    (index.name, index.field) = some index := by
  simp [loadIndex, found, visible, named]

theorem finish_table_rows (formed : WellFormed table) :
    finishTable table.tableId ((tableRows table).foldl add .empty) = some table := by
  have heading : ((tableRows table).foldl add .empty).heading
      = some (table.name, table.storageFormat) := by
    rw [add_rows, table_rows_headings, catalog_name_of_fits formed.name_fits]
    rfl
  have fields : ((tableRows table).foldl add .empty).fields
      = table.fields.zipIdx.map fun entry => (entry.2, entry.1) := by
    rw [add_rows, table_rows_fields formed.fields_fit]
    rfl
  have keys : ((tableRows table).foldl add .empty).primaryKeys = table.primaryKeys := by
    rw [add_rows]
    exact table_rows_restore_keys formed
  have indexes : ((tableRows table).foldl add .empty).indexes
      = table.indexes.map fun index => (index.name, index.field) := by
    rw [add_rows, table_rows_indexes]
    refine map_congr_left fun index present => ?_
    obtain ⟨field, found, named⟩ := formed.indexes_have_field index present
    have field_fits := formed.fields_fit field (mem_of_find?_eq_some found)
    rw [catalog_name_of_fits (formed.indexes_fit index present).1,
      catalog_name_of_fits (named ▸ field_fits)]
  have ordered : (table.fields.zipIdx.map fun entry => (entry.2, entry.1)).Pairwise
      fun left right : Nat × FieldMeta => left.1 ≤ right.1 := by
    have positions : (table.fields.zipIdx.map Prod.snd).Pairwise (· ≤ ·) := by
      rw [zipIdx_map_snd]
      exact pairwise_le_range'
    exact pairwise_map.mpr (pairwise_map.mp positions)
  have sorted_fields : ((table.fields.zipIdx.map fun entry => (entry.2, entry.1)).insertionSort
      fun left right : Nat × FieldMeta => left.1 ≤ right.1).map Prod.snd = table.fields := by
    rw [ordered.insertionSort_eq, map_map]
    exact zipIdx_map_fst 0 table.fields
  have loaded : (table.indexes.map fun index => (index.name, index.field)).mapM
      (loadIndex { table with indexes := [] }) = some table.indexes := by
    refine map_m_of_inverse fun index present => ?_
    obtain ⟨field, found, named⟩ := formed.indexes_have_field index present
    exact load_index_eq (formed.indexes_fit index present).2 found named
  simp only [finishTable, heading, fields, keys, indexes, sorted_fields]
  rw [loaded, formed.name_visible]
  simp [formed.fields_present]

theorem pending_heading_row {rows : List CatalogRow} {tableId : Nat}
    (headed : (pendingTable rows tableId).heading.isSome) :
    ∃ row ∈ rows, row.heading?.isSome ∧ row.tableId = tableId := by
  rw [pendingTable, add_rows] at headed
  obtain ⟨row, ⟨stored, of_table⟩, heads⟩ :
      ∃ row, (row ∈ rows ∧ row.tableId = tableId) ∧ row.heading?.isSome := by
    simpa [empty] using headed
  exact ⟨row, stored, heads, of_table⟩

theorem finish_table_heading {tableId : Nat} {pending : PendingTable}
    (finished : finishTable tableId pending = some table) : pending.heading.isSome := by
  cases heading : pending.heading with
  | none => simp [finishTable, heading] at finished
  | some _ => rfl

/-- If each table comes back from the rows of its id and every table row is of one of them,
loading gives these tables. -/
theorem load_tables_perm {rows : List CatalogRow} {tables : List TableMeta}
    (distinct : (tables.map TableMeta.tableId).Nodup)
    (each : ∀ table ∈ tables, 0 < table.tableId ∧
      finishTable table.tableId (pendingTable rows table.tableId) = some table)
    (headed : ∀ row ∈ rows, row.heading?.isSome →
      row.tableId ∈ tables.map TableMeta.tableId) :
    ∃ loaded, loadTables rows = some loaded ∧ loaded.Perm tables := by
  have same_ids : ((rows.map tableId).dedup.filter fun tableId =>
      (pendingTable rows tableId).heading.isSome && tableId ≠ 0).Perm
        (tables.map TableMeta.tableId) := by
    refine (perm_ext_iff_of_nodup ((nodup_dedup _).filter _) distinct).mpr ?_
    intro tableId
    simp only [mem_filter, mem_dedup, Bool.and_eq_true, decide_eq_true_eq]
    constructor
    · rintro ⟨_, heads, _⟩
      obtain ⟨row, stored, heading, rfl⟩ := pending_heading_row heads
      exact headed row stored heading
    · intro listed
      obtain ⟨table, present, rfl⟩ := mem_map.mp listed
      obtain ⟨positive, finished⟩ := each table present
      have heads := finish_table_heading finished
      obtain ⟨row, stored, _, of_table⟩ := pending_heading_row heads
      exact ⟨mem_map.mpr ⟨row, stored, of_table⟩, heads, positive.ne'⟩
  obtain ⟨loaded, ids, rearranged⟩ :=
    (congrFun₂ (eq_map_comp_perm TableMeta.tableId) _ tables).mpr same_ids
  refine ⟨loaded, ?_, rearranged⟩
  rw [loadTables, ids]
  exact map_m_of_inverse fun table present => (each table (rearranged.mem_iff.mp present)).2

end CsuDbms.SchemaCatalogModel
