import CsuDbms.HeapIndexModel

/-!
# Calls of the table engine that fail

`HeapTableEngine` undoes a call that fails by the inverse calls, and does not look
at their results. `create_index` undoes nothing: its file, and later its place in
the list of indexes, stay.
-/

namespace CsuDbms.TableEngineModel

open MvccTrxModel HeapIndexModel List Option Function

/-- `createFile` is the `open` with `O_EXCL`, `openIndex` the rest of `BplusTreeIndex::create`. -/
inductive CreateStep where
  | createFile | openIndex | openScanner | nextRecord | insertEntry
  | addIndex | openMetaFile | serialize | rename | registerIndex
  deriving DecidableEq

/-- The calls of the lower layers that fail, by the place of the index in the list. A call of an
index that fails and returns leaves its entries as they were: it failed before its first change of a
node, since the rollback of a change writes through the null pointer that `__item_at` of
`IndexNodeHandler` answers, and the call does not return. -/
structure Faults where
  insertRecord : Bool
  deleteRecord : Bool
  visitRecord : Bool
  insertEntry : Nat → Bool
  deleteEntry : Nat → Bool
  undoInsert : Nat → Bool
  undoDelete : Nat → Bool
  create : CreateStep → Bool

def noFaults : Faults :=
  ⟨false, false, false, fun _ => false, fun _ => false, fun _ => false, fun _ => false,
    fun _ => false⟩

/-- `metaIndexes` are those of `TableMeta`, `files` the index files on disk. -/
structure TableState where
  records : Rid → Option Image
  indexes : List Index
  metaIndexes : List (String × Column)
  files : String → Bool

/-- A loop over `indexes_` that ends at the first failure. -/
def loopIndexes (change : Nat → Index → Option Index) : Nat → List Index → Bool × List Index
  | _, [] => (true, [])
  | i, index :: rest =>
    match change i index with
    | none => (false, index :: rest)
    | some written =>
      ((loopIndexes change (i + 1) rest).1, written :: (loopIndexes change (i + 1) rest).2)

def insertAt (fails : Nat → Bool) (image : Image) (rid : Rid) (i : Nat) (index : Index) :
    Option Index :=
  if fails i then none else index.insertEntry image rid

def deleteAt (fails : Nat → Bool) (image : Image) (rid : Rid) (i : Nat) (index : Index) :
    Option Index :=
  if fails i then none else index.deleteEntry image rid

/-- `HeapTableEngine::insert_record`. The free slot is chosen by the record file. -/
def insertRecord (faults : Faults) (table : TableState) (image : Image) (rid : Rid) :
    Bool × TableState :=
  if faults.insertRecord then (false, table)
  else
    let inserted := loopIndexes (insertAt faults.insertEntry image rid) 0 table.indexes
    let records := update table.records rid (some image)
    if inserted.1 then (true, { table with records := records, indexes := inserted.2 })
    else
      let undone := loopIndexes (deleteAt faults.undoDelete image rid) 0 inserted.2
      (false, { table with
        records := if faults.deleteRecord then records else table.records
        indexes := undone.2 })

/-- Only the indexes whose key changes take part in an update. -/
def onAffected (old new : Image) (change : Nat → Index → Option Index) (i : Nat)
    (index : Index) : Option Index :=
  if index.affected old new then change i index else some index

/-- A loop over the first indexes of a list that undoes a change and ignores failures. -/
def undoFirst (undo : Nat → Index → Option Index) : Nat → Nat → List Index → List Index
  | 0, _, indexes => indexes
  | _ + 1, _, [] => []
  | count + 1, i, index :: rest =>
    (undo i index).getD index :: undoFirst undo count (i + 1) rest

def loopCount (change : Nat → Index → Option Index) : Nat → List Index → Nat
  | _, [] => 0
  | i, index :: rest => if (change i index).isNone then 0 else loopCount change (i + 1) rest + 1

/-- `HeapTableEngine::update_record_with_trx`, with records of one length. -/
def updateRecord (faults : Faults) (table : TableState) (old new : Image) (rid newRid : Rid) :
    Bool × TableState :=
  let deleteOld := onAffected old new (deleteAt faults.deleteEntry old rid)
  let insertNew := onAffected old new (insertAt faults.insertEntry new rid)
  let deleteNew := onAffected old new (deleteAt faults.undoDelete new rid)
  let insertOld := onAffected old new (insertAt faults.undoInsert old rid)
  let all := table.indexes.length
  if rid ≠ newRid then (false, table)
  else
    let deleted := loopIndexes deleteOld 0 table.indexes
    if deleted.1 = false then
      let count := loopCount deleteOld 0 table.indexes
      (false, { table with indexes := undoFirst insertOld count 0 deleted.2 })
    else
      let inserted := loopIndexes insertNew 0 deleted.2
      if inserted.1 = false then
        let undone := undoFirst deleteNew (loopCount insertNew 0 deleted.2) 0 inserted.2
        (false, { table with indexes := undoFirst insertOld all 0 undone })
      else if faults.visitRecord ∨ table.records rid = none then
        let undone := undoFirst deleteNew all 0 inserted.2
        (false, { table with indexes := undoFirst insertOld all 0 undone })
      else
        (true, { table with
          records := update table.records rid (some new)
          indexes := inserted.2 })

def isBlank (name : String) : Bool :=
  name.toList.all fun char => char = ' ' ∨ 9 ≤ char.toNat ∧ char.toNat ≤ 13

/-- `Table::create_index` with the records that its scan meets, each of them once. -/
def createIndex (faults : Faults) (table : TableState) (name : String) (column : Column)
    (scanned : List (Image × Rid)) : Bool × TableState :=
  if isBlank name then (false, table)
  else if faults.create .createFile ∨ table.files name then (false, table)
  else
    let filed := { table with files := update table.files name true }
    if faults.create .openIndex ∨ faults.create .openScanner ∨ faults.create .nextRecord ∨
        faults.create .insertEntry then (false, filed)
    else
      let entries := scanned.map fun (image, rid) => (image.key column, rid)
      let listed := { filed with indexes := table.indexes ++ [⟨column, entries.toFinset⟩] }
      if faults.create .addIndex ∨ faults.create .openMetaFile ∨ faults.create .serialize ∨
          faults.create .rename then (false, listed)
      else
        (!faults.create .registerIndex,
          { listed with metaIndexes := table.metaIndexes ++ [(name, column)] })

inductive EngineCall where
  | insertRecord (image : Image) (rid : Rid)
  | updateRecord (old new : Image) (rid newRid : Rid)
  | createIndex (name : String) (column : Column) (scanned : List (Image × Rid))

def TableState.call (faults : Faults) (table : TableState) : EngineCall → Bool × TableState
  | .insertRecord image rid => insertRecord faults table image rid
  | .updateRecord old new rid newRid => updateRecord faults table old new rid newRid
  | .createIndex name column scanned => createIndex faults table name column scanned

def TableState.Agrees (table : TableState) : Prop :=
  ∀ index ∈ table.indexes, ∀ key rid, (key, rid) ∈ index.entries ↔
    ∃ image, table.records rid = some image ∧ image.key index.column = key

/-- A record is inserted into a free slot, and updated from what the slot holds. -/
def TableState.Ready (table : TableState) : EngineCall → Prop
  | .insertRecord _ rid => table.records rid = none
  | .updateRecord old _ rid _ => table.records rid = some old
  | .createIndex _ _ _ => True

/-- A call that fails leaves the table as it was, and can be repeated. -/
def KeepsTable (faults : Faults) (table : TableState) (call : EngineCall) : Prop :=
  (table.call faults call).1 = false →
    let after := (table.call faults call).2
    after.records = table.records ∧ after.indexes = table.indexes ∧
      after.metaIndexes = table.metaIndexes ∧
      (after.call noFaults call).1 = (table.call noFaults call).1

def someFails (fails : Nat → Bool) (affected : Index → Bool) : Nat → List Index → Bool
  | _, [] => false
  | i, index :: rest => (affected index && fails i) || someFails fails affected (i + 1) rest

/-- No inverse call fails for the indexes before the first failure. -/
def undoable (fails undoFails : Nat → Bool) (affected : Index → Bool) : Nat → List Index → Bool
  | _, [] => true
  | i, index :: rest =>
    (affected index && fails i) ||
      ((!affected index || !undoFails i) && undoable fails undoFails affected (i + 1) rest)

/-- The inverse calls that are made succeed. An index is created up to its end, or not even its
file. -/
def Undoes (faults : Faults) (table : TableState) : EngineCall → Prop
  | .insertRecord _ _ =>
    faults.insertRecord ∨ someFails faults.insertEntry (fun _ => true) 0 table.indexes = false ∨
      undoable faults.insertEntry faults.undoDelete (fun _ => true) 0 table.indexes ∧
        faults.deleteRecord = false
  | .updateRecord old new rid newRid =>
    let affected := fun index : Index => index.affected old new
    rid ≠ newRid ∨
      if someFails faults.deleteEntry affected 0 table.indexes then
        undoable faults.deleteEntry faults.undoInsert affected 0 table.indexes
      else
        (someFails faults.insertEntry affected 0 table.indexes ∨ faults.visitRecord) →
          undoable faults.insertEntry faults.undoDelete affected 0 table.indexes ∧
            undoable (fun _ => false) faults.undoInsert affected 0 table.indexes
  | .createIndex name _ _ =>
    isBlank name ∨ faults.create .createFile ∨ table.files name ∨
      ∀ step, faults.create step = false

section Loops

variable {fails undoFails : Nat → Bool} {image old new : Image} {rid : Rid} {indexes : List Index}

theorem loop_of_calls {change : Nat → Index → Option Index} {affected : Index → Bool}
    {source target : Index → Index} (i : Nat)
    (calls : ∀ index ∈ indexes, ∀ i, change i (source index) =
      if affected index && fails i then none else some (target index)) :
    (loopIndexes change i (indexes.map source)).1 = !someFails fails affected i indexes ∧
      (someFails fails affected i indexes = false →
        (loopIndexes change i (indexes.map source)).2 = indexes.map target) := by
  induction indexes generalizing i with
  | nil => simp [loopIndexes, someFails]
  | cons index rest tailLoop =>
    have later := tailLoop (i + 1) fun index member => calls index (mem_cons_of_mem _ member)
    rw [map_cons, loopIndexes, calls index mem_cons_self]
    cases failed : affected index && fails i <;> simp [someFails, failed, later.1]
    exact later.2

variable {index : Index}

section

variable (fresh : (image.key index.column, rid) ∉ index.entries)
include fresh

theorem insert_fresh (i : Nat) :
    insertAt fails image rid i index = if fails i then none else some (index.add image rid) := by
  simp [insertAt, Index.insertEntry, Index.add, fresh]

theorem delete_added (i : Nat) :
    deleteAt fails image rid i (index.add image rid) = if fails i then none else some index := by
  simp [deleteAt, Index.deleteEntry, Index.add, fresh]

theorem add_ne :
    index.add image rid ≠ index := by
  intro same
  have entries := congrArg Index.entries same
  exact fresh (Finset.insert_eq_self.mp entries)

end

section

variable (i : Nat) (fresh : ∀ index ∈ indexes, (image.key index.column, rid) ∉ index.entries)
include i fresh

theorem insert_loop_fails :
    (loopIndexes (insertAt fails image rid) i indexes).1 =
      !someFails fails (fun _ => true) i indexes := by
  have loop := @loop_of_calls fails indexes (insertAt fails image rid) (fun _ => true) id
    (·.add image rid) i fun index member => insert_fresh (fresh index member)
  rw [List.map_id] at loop
  exact loop.1

theorem insert_loop_undone_iff :
    (loopIndexes (deleteAt undoFails image rid) i
        (loopIndexes (insertAt fails image rid) i indexes).2).2 = indexes ↔
      undoable fails undoFails (fun _ => true) i indexes := by
  induction indexes generalizing i with
  | nil => simp [loopIndexes, undoable]
  | cons index rest tailUndone =>
    have new := fresh index mem_cons_self
    have later := tailUndone (i + 1) fun index member =>
      fresh index (mem_cons_of_mem _ member)
    rw [loopIndexes, insert_fresh new]
    cases failed : fails i with
    | true =>
      -- the loop ends here, and so does the one that deletes
      have missing : deleteAt undoFails image rid i index = none := by
        simp [deleteAt, Index.deleteEntry, new]
      simp [loopIndexes, missing, undoable, failed]
    | false =>
      simp only [Bool.false_eq_true, if_false, loopIndexes, delete_added new]
      cases stuck : undoFails i <;> simp [undoable, failed, stuck, later, add_ne new]

end

/-- An index before an update: it has the old entry and, if its key changes, not the new one. -/
structure HoldsOld (old new : Image) (rid : Rid) (index : Index) : Prop where
  held : (old.key index.column, rid) ∈ index.entries
  fresh : index.affected old new → (new.key index.column, rid) ∉ index.entries

def dropOld (old new : Image) (rid : Rid) (index : Index) : Index :=
  if index.affected old new then index.remove old rid else index

section

variable (holds : HoldsOld old new rid index)
include holds

theorem remove_ne :
    index.remove old rid ≠ index := by
  intro same
  have entries := congrArg Index.entries same
  exact Finset.erase_eq_self.mp entries holds.held

theorem delete_old (i : Nat) :
    onAffected old new (deleteAt fails old rid) i index =
      if index.affected old new && fails i then none else some (dropOld old new rid index) := by
  cases affected : index.affected old new <;>
    simp [onAffected, dropOld, affected, deleteAt, Index.deleteEntry, holds.held, Index.remove]

theorem insert_old (i : Nat) :
    onAffected old new (insertAt undoFails old rid) i (dropOld old new rid index) =
      if index.affected old new && undoFails i then none else some index := by
  cases affected : index.affected old new with
  | false => simp [onAffected, dropOld, affected]
  | true =>
    have same : (index.remove old rid).affected old new = true := affected
    simp only [onAffected, dropOld, affected, same, if_true, Bool.true_and]
    simp [insertAt, Index.insertEntry, Index.remove, Finset.insert_erase holds.held]

end

theorem old_restored_iff (undoFails : Nat → Bool) (holds : HoldsOld old new rid index) (i : Nat) :
    (onAffected old new (insertAt undoFails old rid) i (dropOld old new rid index)).getD
        (dropOld old new rid index) = index ↔
      (!index.affected old new || !undoFails i) = true := by
  rw [insert_old holds]
  cases affected : index.affected old new <;> cases stuck : undoFails i <;>
    simp [dropOld, affected, remove_ne holds]

theorem delete_loop_undone_iff (i : Nat) (holds : ∀ index ∈ indexes, HoldsOld old new rid index) :
    undoFirst (onAffected old new (insertAt undoFails old rid))
        (loopCount (onAffected old new (deleteAt fails old rid)) i indexes) i
        (loopIndexes (onAffected old new (deleteAt fails old rid)) i indexes).2 = indexes ↔
      undoable fails undoFails (·.affected old new) i indexes := by
  induction indexes generalizing i with
  | nil => simp [loopIndexes, loopCount, undoFirst, undoable]
  | cons index rest tailUndone =>
    have here := holds index mem_cons_self
    have later := tailUndone (i + 1) fun index member => holds index (mem_cons_of_mem _ member)
    rw [loopIndexes, loopCount, delete_old here]
    cases failed : index.affected old new && fails i with
    | true => simp [undoFirst, undoable, failed]
    | false =>
      simp only [Bool.false_eq_true, if_false, isNone_some, undoFirst, undoable, failed,
        Bool.false_or, Bool.and_eq_true, cons.injEq, later, old_restored_iff undoFails here]

theorem all_restored_iff (undoFails : Nat → Bool) (i : Nat)
    (holds : ∀ index ∈ indexes, HoldsOld old new rid index) :
    undoFirst (onAffected old new (insertAt undoFails old rid)) indexes.length i
        (indexes.map (dropOld old new rid)) = indexes ↔
      undoable (fun _ => false) undoFails (·.affected old new) i indexes := by
  induction indexes generalizing i with
  | nil => simp [undoFirst, undoable]
  | cons index rest tailRestored =>
    have later := tailRestored (i + 1) fun index member =>
      holds index (mem_cons_of_mem _ member)
    simp only [length_cons, map_cons, undoFirst, undoable, Bool.and_false,
      Bool.false_or, Bool.and_eq_true, cons.injEq, later,
      old_restored_iff undoFails (holds index mem_cons_self)]

def writeNew (old new : Image) (rid : Rid) (index : Index) : Index :=
  if index.affected old new then (index.remove old rid).add new rid else index

theorem fresh_removed (holds : HoldsOld old new rid index)
    (affected : index.affected old new = true) :
    (new.key (index.remove old rid).column, rid) ∉ (index.remove old rid).entries :=
  fun member => holds.fresh affected (Finset.mem_of_mem_erase member)

theorem insert_new (holds : HoldsOld old new rid index) (i : Nat) :
    onAffected old new (insertAt fails new rid) i (dropOld old new rid index) =
      if index.affected old new && fails i then none else some (writeNew old new rid index) := by
  cases affected : index.affected old new with
  | false => simp [onAffected, dropOld, writeNew, affected]
  | true =>
    have same : (index.remove old rid).affected old new = true := affected
    simp only [onAffected, dropOld, writeNew, affected, same, if_true, Bool.true_and,
      insert_fresh (fresh_removed holds affected)]

theorem insert_keeps (fails : Nat → Bool) (image : Image) (rid : Rid) (i : Nat) (index : Index)
    {entry : Key × Rid} (member : entry ∈ index.entries) :
    entry ∈ ((insertAt fails image rid i index).getD index).entries := by
  simp only [insertAt, Index.insertEntry]
  split_ifs <;> simp [member]

theorem new_restored_iff (holds : HoldsOld old new rid index) (i : Nat) {insertFails : Nat → Bool} :
    let kept := (onAffected old new (deleteAt undoFails new rid) i
      (writeNew old new rid index)).getD (writeNew old new rid index)
    (onAffected old new (insertAt insertFails old rid) i kept).getD kept = index ↔
      (!index.affected old new || !undoFails i) = true ∧
        (!index.affected old new || !insertFails i) = true := by
  cases affected : index.affected old new with
  | false => simp [onAffected, writeNew, affected]
  | true =>
    have same : ((index.remove old rid).add new rid).affected old new = true := affected
    simp only [writeNew, affected, if_true, onAffected, same,
      delete_added (fresh_removed holds affected)]
    cases stuck : undoFails i with
    | false =>
      have restored := old_restored_iff insertFails holds i
      simpa [dropOld, affected, onAffected] using restored
    | true =>
      simp only [if_true, getD_none, same, Bool.not_true, Bool.or_self,
        Bool.false_eq_true, false_and, iff_false]
      intro back
      have member := insert_keeps insertFails old rid i ((index.remove old rid).add new rid)
        (Finset.mem_insert_self _ _)
      rw [back] at member
      exact holds.fresh affected member

theorem update_undone_iff (fails undoFails insertFails : Nat → Bool) (i : Nat)
    (holds : ∀ index ∈ indexes, HoldsOld old new rid index) :
    undoFirst (onAffected old new (insertAt insertFails old rid)) indexes.length i
        (undoFirst (onAffected old new (deleteAt undoFails new rid))
          (loopCount (onAffected old new (insertAt fails new rid)) i
            (indexes.map (dropOld old new rid))) i
          (loopIndexes (onAffected old new (insertAt fails new rid)) i
            (indexes.map (dropOld old new rid))).2) = indexes ↔
      undoable fails undoFails (·.affected old new) i indexes ∧
        undoable (fun _ => false) insertFails (·.affected old new) i indexes := by
  induction indexes generalizing i with
  | nil => simp [loopIndexes, loopCount, undoFirst, undoable]
  | cons index rest tailUndone =>
    have here := holds index mem_cons_self
    have later := tailUndone (i + 1) fun index member => holds index (mem_cons_of_mem _ member)
    cases failed : index.affected old new && fails i with
    | true =>
      have restored := all_restored_iff insertFails i holds
      rw [map_cons] at restored ⊢
      rw [loopIndexes, loopCount, insert_new here]
      simpa [failed, undoFirst, undoable] using restored
    | false =>
      rw [map_cons, loopIndexes, loopCount, insert_new here]
      simp only [failed, Bool.false_eq_true, if_false, isNone_some, length_cons,
        undoFirst, undoable, Bool.false_or, Bool.and_false, Bool.and_eq_true, cons.injEq,
        later, new_restored_iff here]
      tauto

theorem loop_count_all {change : Nat → Index → Option Index} (i : Nat)
    (done : (loopIndexes change i indexes).1 = true) :
    loopCount change i indexes = indexes.length := by
  induction indexes generalizing i with
  | nil => rfl
  | cons index rest tailCount =>
    cases written : change i index with
    | none => simp [loopIndexes, written] at done
    | some changed =>
      simp only [loopIndexes, written] at done
      simp [loopCount, written, tailCount (i + 1) done]

end Loops

variable {table : TableState}

theorem keeps_iff_same {faults : Faults} {call : EngineCall}
    (rest : (table.call faults call).2.metaIndexes = table.metaIndexes ∧
      (table.call faults call).2.files = table.files) :
    KeepsTable faults table call ↔
      ((table.call faults call).1 = false →
        (table.call faults call).2.records = table.records ∧
          (table.call faults call).2.indexes = table.indexes) := by
  constructor
  · intro keeps failed
    exact ⟨(keeps failed).1, (keeps failed).2.1⟩
  · intro undone failed
    obtain ⟨records, indexes⟩ := undone failed
    have same : (table.call faults call).2 = table := by
      cases after : (table.call faults call).2
      cases table
      simp_all
    exact ⟨records, indexes, rest.1, by rw [same]⟩

theorem holds_old_of_agrees (agrees : table.Agrees) {old : Image} (new : Image) {rid : Rid}
    (held : table.records rid = some old) :
    ∀ index ∈ table.indexes, HoldsOld old new rid index := by
  intro index member
  constructor
  · exact (agrees index member _ rid).mpr ⟨old, held, rfl⟩
  · intro affected present
    obtain ⟨image, stored, key⟩ := (agrees index member _ rid).mp present
    rw [held] at stored
    cases stored
    simp [Index.affected, key] at affected

theorem insert_record_keeps_iff (agrees : table.Agrees) (faults : Faults) (image : Image)
    (rid : Rid) (free : table.records rid = none) :
    KeepsTable faults table (.insertRecord image rid) ↔
      Undoes faults table (.insertRecord image rid) := by
  have fresh : ∀ index ∈ table.indexes, (image.key index.column, rid) ∉ index.entries := by
    intro index member present
    obtain ⟨other, stored, _⟩ := (agrees index member _ rid).mp present
    rw [free] at stored
    cases stored
  have changed : update table.records rid (some image) ≠ table.records := by
    intro same
    have stored := congrFun same rid
    simp [free] at stored
  rw [keeps_iff_same]
  · simp only [TableState.call, insertRecord, Undoes, insert_loop_fails 0 fresh]
    cases faults.insertRecord with
    | true => simp
    | false =>
      cases someFails faults.insertEntry (fun _ => true) 0 table.indexes <;>
        cases faults.deleteRecord <;> simp [insert_loop_undone_iff 0 fresh, changed]
  · simp only [TableState.call, insertRecord]
    split_ifs <;> exact ⟨rfl, rfl⟩

theorem update_record_keeps_iff (agrees : table.Agrees) (faults : Faults) (old new : Image)
    (rid newRid : Rid) (held : table.records rid = some old) :
    KeepsTable faults table (.updateRecord old new rid newRid) ↔
      Undoes faults table (.updateRecord old new rid newRid) := by
  have holds := holds_old_of_agrees agrees new held
  rw [keeps_iff_same]
  · simp only [TableState.call, updateRecord, Undoes, held, reduceCtorEq, or_false]
    by_cases moved : rid = newRid
    · simp only [moved, ne_eq, not_true_eq_false, if_false, false_or]
      rw [moved] at holds
      have deletes := @loop_of_calls faults.deleteEntry table.indexes
        (onAffected old new (deleteAt faults.deleteEntry old newRid)) (·.affected old new) id
        (dropOld old new newRid) 0 fun index member => delete_old (holds index member)
      rw [List.map_id] at deletes
      rw [deletes.1]
      cases deleted : someFails faults.deleteEntry (·.affected old new) 0 table.indexes with
      | true => simp [delete_loop_undone_iff 0 holds]
      | false =>
        rw [deletes.2 deleted]
        have inserts := (@loop_of_calls faults.insertEntry table.indexes
          (onAffected old new (insertAt faults.insertEntry new newRid)) (·.affected old new)
          (dropOld old new newRid) (writeNew old new newRid) 0 fun index member =>
            insert_new (holds index member)).1
        rw [inserts]
        cases inserted : someFails faults.insertEntry (·.affected old new) 0 table.indexes with
        | true => simp [update_undone_iff _ _ _ 0 holds]
        | false =>
          rw [inserted, Bool.not_false] at inserts
          have undone := update_undone_iff faults.insertEntry faults.undoDelete faults.undoInsert 0
            holds
          rw [loop_count_all 0 inserts, length_map] at undone
          cases faults.visitRecord <;> simp [undone]
    · simp [moved]
  · simp only [TableState.call, updateRecord]
    split_ifs <;> exact ⟨rfl, rfl⟩

section CreateIndex

variable {faults : Faults} {name : String} (column : Column) (scanned : List (Image × Rid))

theorem create_refused (faults : Faults)
    (refused : isBlank name ∨ faults.create .createFile ∨ table.files name) :
    createIndex faults table name column scanned = (false, table) := by
  rcases refused with blank | refused
  · rw [createIndex, if_pos blank]
  · rw [createIndex, if_pos refused, ite_self]

section

variable (tried : ¬ (isBlank name ∨ faults.create .createFile ∨ table.files name))
include tried

theorem create_ends_iff :
    (createIndex faults table name column scanned).1 = true ↔
      ∀ step, faults.create step = false := by
  simp only [not_or] at tried
  rw [createIndex, if_neg tried.1, if_neg (not_or.mpr tried.2)]
  constructor
  · intro done step
    cases step <;> split_ifs at done <;> simp_all
  · intro working
    simp [working]

theorem create_leaves_file :
    (createIndex faults table name column scanned).2.files name = true := by
  simp only [not_or] at tried
  rw [createIndex, if_neg tried.1, if_neg (not_or.mpr tried.2)]
  split_ifs <;> simp

end

theorem create_index_keeps_iff :
    KeepsTable faults table (.createIndex name column scanned) ↔
      Undoes faults table (.createIndex name column scanned) := by
  simp only [KeepsTable, TableState.call, Undoes]
  by_cases tried : isBlank name ∨ faults.create .createFile ∨ table.files name
  · rw [create_refused column scanned faults tried]
    simp only [true_and, implies_true, true_iff]
    tauto
  · have ends := create_ends_iff column scanned tried
    have file := create_leaves_file column scanned tried
    have again := create_refused column scanned noFaults (Or.inr (Or.inr file))
    simp only [not_or] at tried
    have before : (createIndex noFaults table name column scanned).1 = true :=
      (create_ends_iff column scanned (by simp [noFaults, tried])).mpr fun step => rfl
    simp only [again, before, Bool.false_eq_true, and_false, imp_false, Bool.not_eq_false, ends,
      tried, false_or]

end CreateIndex

theorem engine_call_keeps_table (faults : Faults) (agrees : table.Agrees) (call : EngineCall)
    (ready : table.Ready call) : KeepsTable faults table call ↔ Undoes faults table call := by
  cases call with
  | insertRecord image rid => exact insert_record_keeps_iff agrees faults image rid ready
  | updateRecord old new rid newRid =>
    exact update_record_keeps_iff agrees faults old new rid newRid ready
  | createIndex name column scanned => exact create_index_keeps_iff column scanned

def emptyTable : TableState :=
  ⟨fun _ => none, [⟨.user 0 .ints, ∅⟩], [("i", .user 0 .ints)], fun name => name = "i"⟩

theorem empty_table_agrees : emptyTable.Agrees := by
  intro index member key rid
  cases mem_singleton.mp member
  simp [emptyTable]

/-- The index refuses the entry of a record, which is then deleted again. -/
theorem refused_entry_keeps_table :
    KeepsTable { noFaults with insertEntry := fun _ => true } emptyTable
      (.insertRecord ⟨⟨0, 0⟩, fun _ => []⟩ ⟨1, 1, 0⟩) := by
  have free : emptyTable.Ready (.insertRecord ⟨⟨0, 0⟩, fun _ => []⟩ ⟨1, 1, 0⟩) := rfl
  exact (engine_call_keeps_table _ empty_table_agrees _ free).mpr (Or.inr (Or.inr ⟨rfl, rfl⟩))

/-- The file for the metadata cannot be opened: the index stays in the list. -/
theorem failed_index_stays_in_list :
    ¬ ∀ (faults : Faults) (table : TableState) (call : EngineCall), table.Agrees →
      table.Ready call → KeepsTable faults table call := by
  intro keeps
  have kept := keeps { noFaults with create := fun step => step = .openMetaFile } emptyTable
    (.createIndex "j" (.user 1 .ints) []) empty_table_agrees trivial
  have indexes := congrArg length (kept rfl).2.1
  exact absurd indexes (by decide)

end CsuDbms.TableEngineModel
