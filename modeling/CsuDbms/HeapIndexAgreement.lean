import CsuDbms.HeapIndexModel

/-!
# Heap and index agreement

The entries of an index follow the heap through every call of the engine as
long as the index is on a column of the user whose keys are ordered, was built by a transaction that
saw all the records, and its entries are deleted by the key under which they
were inserted. `create_index`, the hidden columns and the rollback of an insert
break this.
-/

namespace CsuDbms.HeapIndexModel

open KeyOrder (AttrType)
open MvccTrxModel TransitionSystem List Option Function Heap Index

/-- The image has the keys of the stored record in all indexes of its table. -/
def Heap.Current (heap : Heap) (rid : Rid) (image : Image) : Prop :=
  ∀ index ∈ heap.indexes rid.tableId, ∀ key ∈ heap.keyAt rid index.column,
    image.key index.column = key

instance (heap : Heap) (rid : Rid) (image : Image) : Decidable (heap.Current rid image) := by
  unfold Heap.Current
  infer_instance

def Column.isUser : Column → Bool
  | .user .. => true
  | _ => false

/-- The comparator is a total order on strings, integers and dates. It is none on floats, and on the
other types every key is greater than every key. -/
def Column.isOrdered : Column → Bool
  | .user _ .floats | .user _ .vectors | .user _ .booleans => false
  | _ => true

/-- An index is created on a user column with ordered keys by a transaction that sees every record
of the table; no insert into an indexed table is rolled back; who deletes or updates a record holds
its stored keys. -/
def Careful (heap : Heap) : HeapAction → Prop
  | .rollbackNext handle _ =>
    ∀ rid ∈ nextUndoneInsert heap.db handle, (heap.indexes rid.tableId).isEmpty = true
  | .plainDelete rid image => heap.Current rid image
  | .plainUpdate rid old _ => heap.Current rid old
  | .createIndex creator table column =>
    column.isUser = true ∧ column.isOrdered = true ∧
      ∀ rid ∈ heap.slots, rid.tableId = table → heap.seenBy creator rid = true
  | .trx _ | .insertRecord .. | .plainInsert .. => True

instance (heap : Heap) (action : HeapAction) : Decidable (Careful heap action) := by
  cases action <;> dsimp only [Careful] <;> infer_instance

structure HeapConsistent (heap : Heap) : Prop where
  agrees : Agrees heap
  userColumns : ∀ table, ∀ index ∈ heap.indexes table, index.column.isUser = true
  slotsNodup : heap.slots.Nodup
  slotsStored : ∀ rid, rid ∈ heap.slots ↔ (heap.db.records rid).isSome = true

theorem heap_consistent_empty : HeapConsistent empty where
  agrees := nofun
  userColumns := nofun
  slotsNodup := nodup_nil
  slotsStored := by simp [empty, Db.empty]

theorem key_at_user (heap : Heap) (rid : Rid) (number : Nat) (type : AttrType) :
    heap.keyAt rid (.user number type) =
      if (heap.db.records rid).isSome then some (.bytes (heap.columns rid number)) else none := by
  unfold keyAt image
  cases heap.db.records rid <;> rfl

variable {heap : Heap} {rid : Rid}

theorem key_at_free (free : heap.db.records rid = none)
    (column : Column) : heap.keyAt rid column = none := by
  simp [keyAt, image, free]

theorem image_of_record {stamps : Record} (found : heap.db.records rid = some stamps) :
    heap.image rid = some ⟨stamps, heap.columns rid⟩ := by
  simp [image, found]

variable {image : Image}

theorem key_at_stored
    (stored : heap.image rid = some image) (column : Column) : heap.keyAt rid column = some
    (image.key column) := by
  simp [keyAt, stored]

variable {next : Heap}

theorem key_at_congr (records : next.db.records rid = heap.db.records rid)
    (columns : next.columns rid = heap.columns rid) (column : Column) :
    next.keyAt rid column = heap.keyAt rid column := by
  simp [keyAt, image, records, columns]

variable {index : Index}

theorem entry_of_free (agrees : Agrees heap) (free : heap.db.records rid = none)
    (member : index ∈ heap.indexes rid.tableId) (key : Key) : (key, rid) ∉ index.entries := by
  rw [agrees rid.tableId index member, key_at_free free]
  simp

theorem heap_consistent_same_slots (consistent : HeapConsistent heap)
    (records : ∀ rid, (next.db.records rid).isSome = (heap.db.records rid).isSome)
    (columns : next.columns = heap.columns) (slots : next.slots = heap.slots)
    (indexes : next.indexes = heap.indexes) : HeapConsistent next where
  agrees := by
    intro table index member key rid
    rw [indexes] at member
    rw [consistent.agrees table index member]
    have user := consistent.userColumns table index member
    cases onColumn : index.column with
    | user number type => rw [key_at_user, key_at_user, records, columns]
    | beginXid | endXid => simp [onColumn, Column.isUser] at user
  userColumns := by
    rw [indexes]
    exact consistent.userColumns
  slotsNodup := slots ▸ consistent.slotsNodup
  slotsStored := by
    intro rid
    rw [slots, records]
    exact consistent.slotsStored rid

theorem heap_consistent_write (rid : Rid) (consistent : HeapConsistent heap)
    (frame : ∀ place column, place ≠ rid → next.keyAt place column = heap.keyAt place column)
    (others : ∀ table, table ≠ rid.tableId → next.indexes table = heap.indexes table)
    (written : ∀ index ∈ next.indexes rid.tableId, ∃ old ∈ heap.indexes rid.tableId,
      index.column = old.column ∧
      ∀ key place, (key, place) ∈ index.entries ↔
        if place = rid then next.keyAt rid old.column = some key else (key, place) ∈ old.entries)
    (slotsNodup : next.slots.Nodup)
    (slotsStored : ∀ place, place ∈ next.slots ↔ (next.db.records place).isSome = true) :
    HeapConsistent next := by
  refine ⟨?_, ?_, slotsNodup, slotsStored⟩
  · intro table index member key place
    by_cases here : table = rid.tableId
    · subst here
      obtain ⟨old, oldMember, sameColumn, entries⟩ := written index member
      rw [entries, sameColumn]
      split
      · rename_i same
        subst same
        exact (and_iff_right rfl).symm
      · rename_i there
        rw [consistent.agrees _ old oldMember, frame place _ there]
    · rw [others table here] at member
      rw [consistent.agrees table index member]
      by_cases there : place = rid
      · subst there
        exact iff_of_false (fun both => here both.1.symm) (fun both => here both.1.symm)
      · rw [frame place _ there]
  · intro table index member
    by_cases here : table = rid.tableId
    · subst here
      obtain ⟨old, oldMember, sameColumn, -⟩ := written index member
      exact sameColumn ▸ consistent.userColumns _ old oldMember
    · exact consistent.userColumns table index (others table here ▸ member)

theorem insert_entry_fresh (absent : (image.key index.column, rid) ∉ index.entries) :
    index.insertEntry image rid = some (index.add image rid) :=
  if_neg absent

variable {indexes : List Index}

theorem insert_entries_fresh
    (fresh : ∀ index ∈ indexes, (image.key index.column, rid) ∉ index.entries) :
    insertEntries image rid indexes = (true, indexes.map (·.add image rid)) := by
  induction indexes with
  | nil => rfl
  | cons index rest ih =>
    have remaining := ih fun other member => fresh other (mem_cons_of_mem _ member)
    have absent := fresh index mem_cons_self
    simp [insertEntries, insert_entry_fresh absent, remaining]

theorem mem_add (index : Index) (image : Image) (rid place : Rid) (key : Key)
    (absent : ∀ key, (key, rid) ∉ index.entries) :
    (key, place) ∈ (index.add image rid).entries ↔
      if place = rid then image.key index.column = key else (key, place) ∈ index.entries := by
  by_cases here : place = rid
  · subst here
    simp [add, absent, eq_comm]
  · simp [add, here]

theorem insert_record_succeeds (agrees : Agrees heap)
    (free : heap.db.records rid = none) (image : Image) (stored : Db) :
    heap.insertRecord rid image stored =
      { db := stored
        columns := update heap.columns rid image.columns
        slots := heap.slots ++ [rid]
        indexes := update heap.indexes rid.tableId
          ((heap.indexes rid.tableId).map (·.add image rid)) } := by
  have inserted : insertEntries image rid (heap.indexes rid.tableId) = _ :=
    insert_entries_fresh fun index member => entry_of_free agrees free member _
  simp only [insertRecord, inserted]

theorem heap_consistent_insert (consistent : HeapConsistent heap)
    (free : heap.db.records rid = none) {stored : Db}
    (records : stored.records = update heap.db.records rid (some image.stamps)) :
    HeapConsistent (heap.insertRecord rid image stored) := by
  rw [insert_record_succeeds consistent.agrees free]
  apply heap_consistent_write rid consistent
  · intro place column there
    apply key_at_congr
    · simp [records, there]
    · simp [there]
  · intro table there
    simp [there]
  · intro index member
    simp only [update_self, List.mem_map] at member
    obtain ⟨old, oldMember, rfl⟩ := member
    refine ⟨old, oldMember, rfl, fun key place => ?_⟩
    rw [mem_add old image rid place key (entry_of_free consistent.agrees free oldMember)]
    simp [Heap.keyAt, Heap.image, records]
  · have absent : rid ∉ heap.slots := by
      rw [consistent.slotsStored, free]
      simp
    exact nodup_append.mpr ⟨consistent.slotsNodup, nodup_singleton rid, by
      rintro place member _ single rfl
      exact absent (mem_singleton.mp single ▸ member)⟩
  · intro place
    rw [mem_append, mem_singleton, consistent.slotsStored, records, update_apply]
    split <;> simp_all

theorem heap_consistent_delete (rid : Rid) (consistent : HeapConsistent heap)
    (records : next.db.records = update heap.db.records rid none)
    (columns : next.columns = heap.columns) (slots : next.slots = heap.slots.erase rid)
    (others : ∀ table, table ≠ rid.tableId → next.indexes table = heap.indexes table)
    (written : ∀ index ∈ next.indexes rid.tableId, ∃ old ∈ heap.indexes rid.tableId,
      index.column = old.column ∧
      ∀ key place, (key, place) ∈ index.entries ↔ place ≠ rid ∧ (key, place) ∈ old.entries) :
    HeapConsistent next := by
  apply heap_consistent_write rid consistent
  · intro place column there
    apply key_at_congr
    · simp [records, there]
    · rw [columns]
  · exact others
  · intro index member
    obtain ⟨old, oldMember, sameColumn, entries⟩ := written index member
    refine ⟨old, oldMember, sameColumn, fun key place => ?_⟩
    have gone : next.keyAt rid old.column = none := key_at_free (by simp [records]) _
    rw [entries, gone]
    split <;> simp_all
  · exact slots ▸ consistent.slotsNodup.erase rid
  · intro place
    rw [slots, consistent.slotsNodup.mem_erase_iff, consistent.slotsStored, records,
      update_apply]
    split <;> simp_all

theorem mem_remove (agrees : Agrees heap) (current : heap.Current rid image)
    (member : index ∈ heap.indexes rid.tableId) (key : Key) (place : Rid) :
    (key, place) ∈ (index.remove image rid).entries ↔ place ≠ rid ∧
    (key, place) ∈ index.entries := by
  simp only [remove, Finset.mem_erase, ne_eq, Prod.mk.injEq]
  by_cases here : place = rid
  · subst here
    rw [agrees _ index member]
    constructor
    · rintro ⟨different, -, stored⟩
      exact absurd ⟨(current index member key stored).symm, rfl⟩ different
    · exact fun both => absurd rfl both.1
  · simp [here]

theorem map_idx_const {α β : Type} (change : α → β) (items : List α) :
    items.mapIdx (fun _ item => change item) = items.map change := by
  apply ext_getElem <;> simp

theorem delete_record_eq (consistent : HeapConsistent heap) (image : Image) :
    (heap.deleteRecord rid image).db.records = update heap.db.records rid none ∧
      (heap.deleteRecord rid image).columns = heap.columns ∧
      (heap.deleteRecord rid image).slots = heap.slots.erase rid ∧
      (heap.deleteRecord rid image).indexes = update heap.indexes rid.tableId
        ((heap.indexes rid.tableId).map (·.remove image rid)) := by
  cases stored : heap.db.records rid with
  | none =>
    have absent : rid ∉ heap.slots := by
      rw [consistent.slotsStored, stored]
      simp
    simp only [deleteRecord, stored, dropEntries, map_idx_const]
    refine ⟨?_, trivial, (erase_of_not_mem absent).symm, rfl⟩
    rw [← stored, update_eq_self]
  | some stamps =>
    simp only [deleteRecord, stored, dropEntries, map_idx_const]
    exact ⟨rfl, trivial, trivial, rfl⟩

theorem heap_consistent_plain_delete
    (consistent : HeapConsistent heap) (current : heap.Current rid image) :
    HeapConsistent (heap.deleteRecord rid image) := by
  obtain ⟨records, columns, slots, indexes⟩ := delete_record_eq consistent image
  apply heap_consistent_delete rid consistent records columns slots
  · intro table there
    simp [indexes, there]
  · intro index member
    simp only [indexes, update_self, List.mem_map] at member
    obtain ⟨old, oldMember, rfl⟩ := member
    exact ⟨old, oldMember, rfl, mem_remove consistent.agrees current oldMember⟩

@[simp] theorem affected_add (index : Index) (image : Image) (rid : Rid) (old new : Image) :
    (index.add image rid).affected old new = index.affected old new := rfl

@[simp] theorem affected_remove (index : Index) (image : Image) (rid : Rid) (old new : Image) :
    (index.remove image rid).affected old new = index.affected old new := rfl

theorem add_remove (present : (image.key index.column, rid) ∈ index.entries) :
    (index.remove image rid).add image rid = index := by
  simp [add, remove, present]

theorem remove_add (absent : (image.key index.column, rid) ∉ index.entries) :
    (index.add image rid).remove image rid = index := by
  simp [add, remove, absent]

variable {old new : Image} {limit : Nat}

theorem change_affected_undo {change undo : Index → Index}
    (kept : ∀ index, (change index).affected old new = index.affected old new)
    (undone : ∀ i (bound : i < indexes.length), i < limit → indexes[i].affected old new = true →
      undo (change indexes[i]) = indexes[i]) :
    changeAffected old new limit undo (changeAffected old new limit change indexes) = indexes := by
  unfold changeAffected
  rw [mapIdx_mapIdx]
  apply ext_getElem
  · simp
  · intro i _ bound
    simp only [getElem_mapIdx, comp_apply]
    by_cases acts : i < limit ∧ indexes[i].affected old new = true
    · rw [if_pos acts, if_pos ⟨acts.1, (kept _).trans acts.2⟩]
      exact undone i bound acts.1 acts.2
    · rw [if_neg acts, if_neg acts]

theorem change_affected_all (old new : Image) (change : Index → Index) (indexes : List Index) :
    changeAffected old new indexes.length change indexes =
      indexes.map fun index => if index.affected old new then change index else index := by
  unfold changeAffected
  apply ext_getElem
  · simp
  · intro i _ bound
    have bound : i < indexes.length := by simpa using bound
    simp [bound]

theorem restore_removed
    (present : ∀ i (bound : i < indexes.length), i < limit →
      indexes[i].affected old new = true →
      (old.key indexes[i].column, rid) ∈ indexes[i].entries) :
    changeAffected old new limit (·.add old rid)
      (changeAffected old new limit (·.remove old rid) indexes) = indexes :=
  change_affected_undo (fun index => affected_remove index old rid old new)
    fun i bound below affected => add_remove (present i bound below affected)

theorem restore_added
    (absent : ∀ i (bound : i < indexes.length), i < limit →
      indexes[i].affected old new = true →
      (new.key indexes[i].column, rid) ∉ indexes[i].entries) :
    changeAffected old new limit (·.remove new rid)
      (changeAffected old new limit (·.add new rid) indexes) = indexes :=
  change_affected_undo (fun index => affected_add index new rid old new)
    fun i bound below affected => remove_add (absent i bound below affected)

def Index.replace (index : Index) (rid : Rid) (old new : Image) : Index :=
  if index.affected old new then (index.remove old rid).add new rid else index

theorem replace_column (index : Index) (rid : Rid) (old new : Image) :
    (index.replace rid old new).column = index.column := by
  unfold Index.replace
  split <;> rfl

theorem replace_all (rid : Rid) (old new : Image) (indexes : List Index) :
    changeAffected old new indexes.length (·.add new rid)
        (changeAffected old new indexes.length (·.remove old rid) indexes) =
      indexes.map (·.replace rid old new) := by
  have length : indexes.length =
      (changeAffected old new indexes.length (·.remove old rid) indexes).length := by
    simp [changeAffected]
  nth_rewrite 1 [length]
  rw [change_affected_all, change_affected_all, List.map_map]
  apply List.map_congr_left
  intro index _
  by_cases affected : index.affected old new = true
  · simp [Index.replace, affected]
  · simp [Index.replace, affected]

theorem update_record_cases (heap : Heap) (rid : Rid) (old new : Image) :
    heap.updateRecord rid old new = heap ∨
      ((heap.db.records rid).isSome = true ∧
        heap.updateRecord rid old new =
          { heap with
            db := heap.db.updateRecord rid fun _ => new.stamps
            columns := update heap.columns rid new.columns
            indexes := update heap.indexes rid.tableId
              ((heap.indexes rid.tableId).map (·.replace rid old new)) }) := by
  have unchanged : { heap with
      indexes := update heap.indexes rid.tableId (heap.indexes rid.tableId) } = heap := by
    rw [update_eq_self]
  simp only [updateRecord]
  split
  · rename_i failing found
    obtain ⟨_, _, before⟩ := findIdx?_eq_some_iff_getElem.mp found
    rw [restore_removed, unchanged]
    · exact .inl rfl
    · intro i bound below affected
      by_contra missing
      exact before i below (by simpa using ⟨affected, missing⟩)
  · rename_i allFound
    have restored : changeAffected old new (heap.indexes rid.tableId).length (·.add old rid)
        (changeAffected old new (heap.indexes rid.tableId).length (·.remove old rid)
          (heap.indexes rid.tableId)) = heap.indexes rid.tableId := by
      apply restore_removed
      intro i bound _ affected
      by_contra missing
      have found := findIdx?_eq_none_iff.mp allFound _ (getElem_mem bound)
      simp [affected, missing] at found
    split
    · rename_i failing found
      obtain ⟨_, _, before⟩ := findIdx?_eq_some_iff_getElem.mp found
      rw [restore_added, restored, unchanged]
      · exact .inl rfl
      · intro i bound below affected present
        exact before i below (by simpa using ⟨affected, present⟩)
    · rename_i allAbsent
      split
      · rw [restore_added, restored, unchanged]
        · exact .inl rfl
        · intro i bound _ affected present
          have found := findIdx?_eq_none_iff.mp allAbsent _ (getElem_mem bound)
          simp [affected, present] at found
      · rename_i stamps stored
        refine .inr ⟨by simp [stored], ?_⟩
        rw [replace_all]

theorem mem_replace (agrees : Agrees heap) (current : heap.Current rid old) (new : Image)
    (member : index ∈ heap.indexes rid.tableId) (stored : (heap.db.records rid).isSome = true)
    (key : Key) (place : Rid) :
    (key, place) ∈ (index.replace rid old new).entries ↔
      if place = rid then new.key index.column = key else (key, place) ∈ index.entries := by
  by_cases affected : index.affected old new = true
  · have absent : ∀ key, (key, rid) ∉ (index.remove old rid).entries := by
      intro key
      rw [mem_remove agrees current member]
      simp
    rw [Index.replace, if_pos affected, mem_add _ new rid place key absent]
    split
    · rfl
    · rename_i there
      rw [mem_remove agrees current member]
      exact and_iff_right there
  · rw [Index.replace, if_neg affected]
    split
    · rename_i here
      subst here
      obtain ⟨stamps, found⟩ := isSome_iff_exists.mp stored
      have keyStored := key_at_stored (image_of_record found) index.column
      have same : old.key index.column = new.key index.column := by
        simpa [Index.affected] using affected
      rw [agrees _ index member, and_iff_right rfl, ← same, current index member _ keyStored,
        keyStored, some.injEq]
    · rfl

theorem heap_consistent_update
    (consistent : HeapConsistent heap) (current : heap.Current rid old) (new : Image) :
    HeapConsistent (heap.updateRecord rid old new) := by
  rcases update_record_cases heap rid old new with same | ⟨stored, after⟩
  · rw [same]
    exact consistent
  rw [after]
  apply heap_consistent_write rid consistent
  · intro place column there
    apply key_at_congr
    · simp [there]
    · simp [there]
  · intro table there
    simp [there]
  · intro index member
    simp only [update_self, List.mem_map] at member
    obtain ⟨before, beforeMember, rfl⟩ := member
    refine ⟨before, beforeMember, replace_column before rid old new, fun key place => ?_⟩
    rw [mem_replace consistent.agrees current new beforeMember stored]
    obtain ⟨stamps, found⟩ := isSome_iff_exists.mp stored
    simp [keyAt, image, found]
  · exact consistent.slotsNodup
  · intro place
    rw [consistent.slotsStored]
    simp only [update_record_records, update_apply]
    split <;> simp_all

/-- The scan never meets a slot twice, so that no entry is refused. -/
theorem build_index_spec (heap : Heap) (index : Index) (scanned : List Rid)
    (distinct : scanned.Nodup) (fresh : ∀ rid ∈ scanned, ∀ key, (key, rid) ∉ index.entries) :
    ∃ built, buildIndex heap index scanned = some built ∧ built.column = index.column ∧
      ∀ key rid, (key, rid) ∈ built.entries ↔
        (key, rid) ∈ index.entries ∨ (rid ∈ scanned ∧ heap.keyAt rid index.column = some key) := by
  induction scanned generalizing index with
  | nil => exact ⟨index, rfl, rfl, by simp⟩
  | cons place rest ih =>
    obtain ⟨apart, distinct⟩ := nodup_cons.mp distinct
    have freshRest := fun rid member => fresh rid (mem_cons_of_mem _ member)
    have absent := fresh place mem_cons_self
    cases stored : heap.image place with
    | none =>
      obtain ⟨built, builds, column, entries⟩ := ih index distinct freshRest
      refine ⟨built, by simp [buildIndex, stored, builds], column, fun key rid => ?_⟩
      rw [entries, mem_cons]
      by_cases here : rid = place
      · subst here
        simp [keyAt, stored]
      · simp [here]
    | some image =>
      have keyStored := key_at_stored stored index.column
      have freshAdded : ∀ rid ∈ rest, ∀ key,
          (key, rid) ∉ (index.add image place).entries := by
        intro rid member key
        have there : rid ≠ place := fun same => apart (same ▸ member)
        rw [mem_add index image place rid key absent, if_neg there]
        exact freshRest rid member key
      obtain ⟨built, builds, column, entries⟩ := ih _ distinct freshAdded
      refine ⟨built, ?_, column, fun key rid => ?_⟩
      · simpa [buildIndex, stored, insert_entry_fresh (absent _)] using builds
      · rw [entries, mem_add index image place rid key absent, mem_cons]
        by_cases here : rid = place
        · subst here
          simp [add, apart, keyStored, absent]
        · simp [add, here]

theorem create_index_eq (consistent : HeapConsistent heap) (creator : Option Nat)
    (table : Int) (column : Column) :
    ∃ built, heap.createIndex creator table column =
        { heap with
          indexes := update heap.indexes table (heap.indexes table ++ [built]) } ∧
      built.column = column ∧
      (IndexAgrees heap table built ↔
        ∀ rid ∈ heap.slots, rid.tableId = table → heap.seenBy creator rid = true) := by
  obtain ⟨built, builds, sameColumn, entries⟩ := build_index_spec heap
    { column := column, entries := ∅ }
    (heap.slots.filter fun rid => rid.tableId = table ∧ heap.seenBy creator rid)
    (consistent.slotsNodup.filter _) (by simp)
  refine ⟨built, by simp only [createIndex, builds], sameColumn, ?_⟩
  have keyAt : ∀ rid ∈ heap.slots, ∃ key, heap.keyAt rid column = some key := by
    intro rid member
    obtain ⟨stamps, found⟩ := isSome_iff_exists.mp ((consistent.slotsStored rid).mp member)
    exact ⟨_, key_at_stored (image_of_record found) column⟩
  constructor
  · intro agrees rid member inTable
    obtain ⟨key, stored⟩ := keyAt rid member
    have present := (agrees key rid).mpr ⟨inTable, sameColumn ▸ stored⟩
    rw [entries] at present
    simp only [Finset.notMem_empty, false_or, mem_filter, decide_eq_true_eq] at present
    exact present.1.2.2
  · intro seen key rid
    rw [entries, sameColumn]
    simp only [Finset.notMem_empty, false_or, mem_filter, decide_eq_true_eq]
    constructor
    · exact fun both => ⟨both.1.2.1, both.2⟩
    · rintro ⟨inTable, stored⟩
      have member : rid ∈ heap.slots := by
        rw [consistent.slotsStored]
        by_contra free
        rw [key_at_free (by simpa using free)] at stored
        cases stored
      exact ⟨⟨member, inTable, seen rid member inTable⟩, stored⟩

theorem heap_consistent_create_index (consistent : HeapConsistent heap)
    {creator : Option Nat} {table : Int} {column : Column} (user : column.isUser = true)
    (seen : ∀ rid ∈ heap.slots, rid.tableId = table → heap.seenBy creator rid = true) :
    HeapConsistent (heap.createIndex creator table column) := by
  obtain ⟨built, after, sameColumn, exact_⟩ := create_index_eq consistent creator table column
  rw [after]
  have member : ∀ other index,
      index ∈ update heap.indexes table (heap.indexes table ++ [built]) other →
        index ∈ heap.indexes other ∨ (other = table ∧ index = built) := by
    intro other index present
    by_cases same : other = table
    · subst same
      simpa using present
    · simpa [same] using present
  refine ⟨?_, ?_, consistent.slotsNodup, consistent.slotsStored⟩
  · intro other index present
    rcases member other index present with old | ⟨rfl, rfl⟩
    · exact consistent.agrees other index old
    · exact exact_.mpr seen
  · intro other index present
    rcases member other index present with old | ⟨rfl, rfl⟩
    · exact consistent.userColumns other index old
    · exact sameColumn ▸ user

theorem occupied_step {db next : Db} {action : Action} (leaves : leavesIndexes action = true)
    (taken : step db action = some next) (rid : Rid) :
    (next.records rid).isSome = (db.records rid).isSome := by
  have tracked : trackedStep ⟨db, .empty⟩ action = some _ := congrArg (Option.map _) taken
  rcases slot_step tracked rid with ⟨same, -⟩ | change
  · exact congrArg isSome same
  · simp only at change
    generalize next.records rid = written, (History.advance _ _ _).rows rid = row at change ⊢
    cases change with
    | insert | rollbackInsert | rollbackDelete => cases leaves
    | delete _ stored => simp [show db.records rid = _ from stored]
    | commitInsert | commitDelete => exact isSome_map

theorem heap_consistent_rollback_next {handle : Nat} {garbage : Nat → Key}
    (consistent : HeapConsistent heap) (met : Careful heap (.rollbackNext handle garbage))
    (taken : heapStep heap (.rollbackNext handle garbage) = some next) : HeapConsistent next := by
  obtain ⟨db, rolled, rfl⟩ := map_eq_some_iff.mp taken
  obtain ⟨⟨type, rid⟩, rest, loop, rfl⟩ := step_rollback_next rolled
  have pending := pending_rolling_back loop
  cases type with
  | insert =>
    have undone : nextUndoneInsert heap.db handle = some rid := by
      simp [nextUndoneInsert, pending]
    have unindexed : heap.indexes rid.tableId = [] := by simpa using met rid undone
    simp only [undone]
    apply heap_consistent_delete rid consistent
    · rfl
    · rfl
    · rfl
    · intro table there
      simp [dropEntries, there]
    · simp [dropEntries, unindexed]
  | delete =>
    have undone : nextUndoneInsert heap.db handle = none := by
      simp [nextUndoneInsert, pending]
    simp only [undone]
    refine heap_consistent_same_slots consistent (fun place => ?_) rfl rfl rfl
    simp only [Db.rollbackOperation, Db.setTrx_records, update_record_records,
      update_apply]
    split <;> simp_all

theorem heap_consistent_step {action : HeapAction}
    (consistent : HeapConsistent heap) (met : Careful heap action)
    (taken : heapStep heap action = some next) : HeapConsistent next := by
  cases action with
  | trx action =>
    simp only [heapStep, ite_none_right_eq_some] at taken
    obtain ⟨leaves, taken⟩ := taken
    obtain ⟨db, stepped, rfl⟩ := map_eq_some_iff.mp taken
    exact heap_consistent_same_slots consistent (occupied_step leaves stepped) rfl rfl rfl
  | insertRecord handle rid columns =>
    obtain ⟨db, stepped, rfl⟩ := map_eq_some_iff.mp taken
    obtain ⟨⟨-, -, free⟩, ⟨⟩⟩ := ite_none_right_eq_some.mp stepped
    exact heap_consistent_insert consistent free rfl
  | rollbackNext handle garbage => exact heap_consistent_rollback_next consistent met taken
  | plainInsert rid columns =>
    obtain ⟨free, ⟨⟩⟩ := ite_none_right_eq_some.mp taken
    exact heap_consistent_insert consistent free rfl
  | plainDelete rid image =>
    obtain rfl := some.inj taken
    exact heap_consistent_plain_delete consistent met
  | plainUpdate rid old new =>
    obtain rfl := some.inj taken
    exact heap_consistent_update consistent met new
  | createIndex creator table column =>
    obtain rfl := some.inj taken
    exact heap_consistent_create_index consistent met.1 met.2.2

def AgreesOn (heap : Heap) (table : Int) : Prop :=
  ∀ index ∈ heap.indexes table,
    (∀ entry ∈ index.entries, heap.keyAt entry.2 index.column = some entry.1) ∧
      ∀ rid ∈ heap.slots, rid.tableId = table →
        ∀ key ∈ heap.keyAt rid index.column, (key, rid) ∈ index.entries

instance (heap : Heap) (table : Int) : Decidable (AgreesOn heap table) :=
  inferInstanceAs (Decidable (∀ index ∈ heap.indexes table, _ ∧ ∀ rid ∈ heap.slots, _))

theorem agrees_on_of_agrees (agrees : Agrees heap) (table : Int) :
    AgreesOn heap table := by
  intro index member
  constructor
  · intro entry present
    exact ((agrees table index member entry.1 entry.2).mp present).2
  · intro rid _ inTable key stored
    exact (agrees table index member key rid).mpr ⟨inTable, stored⟩

def firstSlot : Rid := ⟨1, 1, 0⟩

def secondSlot : Rid := ⟨1, 1, 1⟩

/-- A committed row, and an index that a session creates in autocommit: its
transaction has not started and its id -1 sees no committed row. -/
def indexAfterCommit : List HeapAction :=
  [.trx (.startIfNeed 0), .insertRecord 0 firstSlot fun _ => [7], .trx (.commit 0),
    .trx (.commitNext 0), .trx (.commitEnd 0), .createIndex (some 1) 1 (.user 0 .ints)]

def rolledBackInsert : List HeapAction :=
  [.createIndex (some 0) 1 (.user 0 .ints), .trx (.startIfNeed 0),
    .insertRecord 0 firstSlot fun _ => [7],
    .trx (.rollback 0), .rollbackNext 0 fun _ => .bytes [0], .trx (.rollbackEnd 0)]

def stampIndex : List HeapAction :=
  [.createIndex (some 0) 1 .beginXid, .trx (.startIfNeed 0),
    .insertRecord 0 firstSlot fun _ => [7], .trx (.commit 0), .trx (.commitNext 0),
    .trx (.commitEnd 0)]

def breaksAgreement (actions : List HeapAction) : Bool :=
  match run heapStep (fun _ _ => True) empty actions with
  | some heap => !decide (AgreesOn heap 1)
  | none => false

theorem breaks_agreement_reaches {actions : List HeapAction}
    (breaks : breaksAgreement actions = true) :
    ∃ heap, run heapStep (fun _ _ => True) empty actions = some heap ∧
      Reaches heapStep (fun _ _ => True) empty heap ∧ ¬Agrees heap := by
  unfold breaksAgreement at breaks
  split at breaks
  · rename_i heap ran
    refine ⟨heap, ran, run_reaches ran, fun agrees => ?_⟩
    simp [agrees_on_of_agrees agrees 1] at breaks
  · cases breaks

theorem each_run_breaks_agreement :
    ∀ actions ∈ [indexAfterCommit, rolledBackInsert, stampIndex],
      ∃ heap, run heapStep (fun _ _ => True) empty actions = some heap ∧
        Reaches heapStep (fun _ _ => True) empty heap ∧ ¬Agrees heap := by
  intro actions member
  apply breaks_agreement_reaches
  simp only [mem_cons, not_mem_nil, or_false] at member
  rcases member with rfl | rfl | rfl <;> decide +kernel

def indexedRows : List HeapAction :=
  [.createIndex (some 0) 1 (.user 0 .ints), .trx (.startIfNeed 0),
    .insertRecord 0 firstSlot fun _ => [7],
    .plainInsert secondSlot fun _ => [8],
    .plainUpdate secondSlot ⟨loadedRecord, fun _ => [8]⟩ ⟨loadedRecord, fun _ => [9]⟩,
    .createIndex none 1 (.user 1 .chars), .trx (.commit 0), .trx (.commitNext 0),
    .trx (.commitEnd 0),
    .plainDelete secondSlot ⟨loadedRecord, fun _ => [9]⟩]

theorem indexed_rows_run :
    (run heapStep Careful empty indexedRows).isSome = true := by
  decide +kernel

end CsuDbms.HeapIndexModel
