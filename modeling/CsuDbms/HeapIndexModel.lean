import CsuDbms.KeyOrder
import CsuDbms.LoadedRows

/-!
# The heap file of a table and its indexes

Transcription of `HeapTableEngine` over the stamped records of the transaction
layer. An index is the set of its (key bytes, `RID`) entries: the tree refuses
an entry it already holds and reports one that it does not find. That is so where
the comparator orders the keys of the column, so that the search in the tree finds
what it holds; the sets stand for no other tree. The sessions
are those of `MvccTrx` together with the non-transactional callers, `VacuousTrx`
and `LOAD DATA`, which go straight to the table. One call of the engine is one
step; operations that fail are steps too, with what they leave behind.
-/

namespace CsuDbms.HeapIndexModel

open MvccTrxModel Function
open KeyOrder (AttrType)

/-- A field of the table: `TableMeta::field` finds the two hidden ones as well. -/
inductive Column where
  | beginXid
  | endXid
  | user (number : Nat) (type : AttrType)
  deriving DecidableEq, Repr

inductive Key where
  | stamp (xid : Int)
  | bytes (data : List UInt8)
  deriving DecidableEq, Repr

structure Image where
  stamps : Record
  columns : Nat → List UInt8

def Image.key (image : Image) : Column → Key
  | .beginXid => .stamp image.stamps.beginXid
  | .endXid => .stamp image.stamps.endXid
  | .user number _ => .bytes (image.columns number)

structure Index where
  column : Column
  entries : Finset (Key × Rid)

/-- `BplusTreeIndex::insert_entry`, which fails on an entry that exists. -/
def Index.insertEntry (index : Index) (image : Image) (rid : Rid) : Option Index :=
  if (image.key index.column, rid) ∈ index.entries then none
  else some { index with entries := insert (image.key index.column, rid) index.entries }

/-- `BplusTreeIndex::delete_entry`, which fails on an entry that is missing. -/
def Index.deleteEntry (index : Index) (image : Image) (rid : Rid) : Option Index :=
  if (image.key index.column, rid) ∈ index.entries then
    some { index with entries := index.entries.erase (image.key index.column, rid) }
  else none

/-- `slots` lists the occupied slots, in the order a scan meets them. -/
structure Heap where
  db : Db
  columns : Rid → Nat → List UInt8
  slots : List Rid
  indexes : Int → List Index

def Heap.empty : Heap where
  db := Db.empty
  columns := fun _ _ => []
  slots := []
  indexes := fun _ => []

def Heap.image (heap : Heap) (rid : Rid) : Option Image :=
  (heap.db.records rid).map fun stamps => ⟨stamps, heap.columns rid⟩

def insertEntries (image : Image) (rid : Rid) : List Index → Bool × List Index
  | [] => (true, [])
  | index :: rest =>
    match index.insertEntry image rid with
    | none => (false, index :: rest)
    | some written =>
      ((insertEntries image rid rest).1, written :: (insertEntries image rid rest).2)

/-- `delete_entry_of_indexes` with `error_on_not_exists` false: any failure
ends the loop. -/
def deleteEntries (image : Image) (rid : Rid) : List Index → List Index
  | [] => []
  | index :: rest =>
    match index.deleteEntry image rid with
    | none => index :: rest
    | some written => written :: deleteEntries image rid rest

/-- `HeapTableEngine::insert_record` into the free slot `rid`; `stored` is the transaction layer
with the record. When an index refuses the entry, entries and record are taken out again. -/
def Heap.insertRecord (heap : Heap) (rid : Rid) (image : Image) (stored : Db) : Heap :=
  match insertEntries image rid (heap.indexes rid.tableId) with
  | (true, indexes) =>
    { db := stored
      columns := update heap.columns rid image.columns
      slots := heap.slots ++ [rid]
      indexes := update heap.indexes rid.tableId indexes }
  | (false, indexes) =>
    { heap with
      db := heap.db.append [.recordInsert rid image.stamps, .recordDelete rid]
      indexes := update heap.indexes rid.tableId (deleteEntries image rid indexes) }

/-- The index loop of `HeapTableEngine::delete_record`. Its `ASSERT` is empty
in release builds, so an entry that is missing changes nothing. -/
def Heap.dropEntries (heap : Heap) (rid : Rid) (read : Nat → Index → Key) : Heap :=
  { heap with
    indexes := update heap.indexes rid.tableId
      ((heap.indexes rid.tableId).mapIdx fun i index =>
        { index with entries := index.entries.erase (read i index, rid) }) }

def Heap.deleteRecord (heap : Heap) (rid : Rid) (image : Image) : Heap :=
  let dropped := heap.dropEntries rid fun _ index => image.key index.column
  match heap.db.records rid with
  | none => dropped
  | some _ =>
    { dropped with
      db := (heap.db.setRecord rid none).append [.recordDelete rid]
      slots := heap.slots.erase rid }

def Index.add (index : Index) (image : Image) (rid : Rid) : Index :=
  { index with entries := insert (image.key index.column, rid) index.entries }

def Index.remove (index : Index) (image : Image) (rid : Rid) : Index :=
  { index with entries := index.entries.erase (image.key index.column, rid) }

def Index.affected (index : Index) (old new : Image) : Bool :=
  decide (old.key index.column ≠ new.key index.column)

def changeAffected (old new : Image) (limit : Nat) (change : Index → Index)
    (indexes : List Index) : List Index :=
  indexes.mapIdx fun i index => if i < limit ∧ index.affected old new then change index else index

/-- `HeapTableEngine::update_record_with_trx`: the old entries of the affected indexes are deleted,
the new ones inserted, the record written. A step that fails undoes what was done. -/
def Heap.updateRecord (heap : Heap) (rid : Rid) (old new : Image) : Heap :=
  let indexes := heap.indexes rid.tableId
  let all := indexes.length
  let setIndexes (indexes : List Index) : Heap :=
    { heap with indexes := update heap.indexes rid.tableId indexes }
  match indexes.findIdx? fun index =>
      index.affected old new ∧ (old.key index.column, rid) ∉ index.entries with
  | some failing =>
    let deleted := changeAffected old new failing (·.remove old rid) indexes
    setIndexes (changeAffected old new failing (·.add old rid) deleted)
  | none =>
    let deleted := changeAffected old new all (·.remove old rid) indexes
    match deleted.findIdx? fun index =>
        index.affected old new ∧ (new.key index.column, rid) ∈ index.entries with
    | some failing =>
      let inserted := changeAffected old new failing (·.add new rid) deleted
      let undone := changeAffected old new failing (·.remove new rid) inserted
      setIndexes (changeAffected old new all (·.add old rid) undone)
    | none =>
      let inserted := changeAffected old new all (·.add new rid) deleted
      match heap.db.records rid with
      | none =>
        let undone := changeAffected old new all (·.remove new rid) inserted
        setIndexes (changeAffected old new all (·.add old rid) undone)
      | some _ =>
        { setIndexes inserted with
          db := heap.db.updateRecord rid fun _ => new.stamps
          columns := update heap.columns rid new.columns }

/-- Whether the scan of `create_index` meets the record: `VacuousTrx` sees all
of them, an `MvccTrx` those its own id may read. -/
def Heap.seenBy (heap : Heap) (creator : Option Nat) (rid : Rid) : Bool :=
  match creator with
  | none => true
  | some handle => visibleTo heap.db (heap.db.trxs handle).trxId rid

def buildIndex (heap : Heap) (index : Index) : List Rid → Option Index
  | [] => some index
  | rid :: rest =>
    match heap.image rid with
    | none => buildIndex heap index rest
    | some image =>
      (index.insertEntry image rid).bind fun written => buildIndex heap written rest

/-- `HeapTableEngine::create_index`. `CreateIndexExecutor` passes the current
transaction without `start_if_need`, so that its id may be -1. -/
def Heap.createIndex (heap : Heap) (creator : Option Nat) (table : Int) (column : Column) : Heap :=
  let scanned := heap.slots.filter fun rid => rid.tableId = table ∧ heap.seenBy creator rid
  match buildIndex heap { column := column, entries := ∅ } scanned with
  | none => heap
  | some index =>
    { heap with
      indexes := update heap.indexes table (heap.indexes table ++ [index]) }

inductive HeapAction where
  | trx (action : Action)
  | insertRecord (handle : Nat) (rid : Rid) (columns : Nat → List UInt8)
  | rollbackNext (handle : Nat) (garbage : Nat → Key)
  | plainInsert (rid : Rid) (columns : Nat → List UInt8)
  | plainDelete (rid : Rid) (image : Image)
  | plainUpdate (rid : Rid) (old new : Image)
  | createIndex (creator : Option Nat) (table : Int) (column : Column)

def nextUndoneInsert (db : Db) (handle : Nat) : Option Rid :=
  match (db.trxs handle).pending with
  | ⟨.insert, rid⟩ :: _ => some rid
  | _ => none

def leavesIndexes : Action → Bool
  | .insertRecord .. | .rollbackNext _ => false
  | _ => true

/-- One call. A rollback deletes an inserted record through a `Record` without data, so the key that
each index reads through the null pointer is arbitrary; a run that does not survive the read ends
there. `MvccTrx::update_record` is not implemented. -/
def heapStep (heap : Heap) : HeapAction → Option Heap
  | .trx action =>
    if leavesIndexes action then (step heap.db action).map fun db => { heap with db := db }
    else none
  | .insertRecord handle rid columns =>
    (step heap.db (.insertRecord handle rid)).map fun db =>
      heap.insertRecord rid ⟨⟨-(heap.db.trxs handle).trxId, maxTrxId⟩, columns⟩ db
  | .rollbackNext handle garbage =>
    (step heap.db (.rollbackNext handle)).map fun db =>
      match nextUndoneInsert heap.db handle with
      | some rid =>
        { heap.dropEntries rid fun i _ => garbage i with
          db := db
          slots := heap.slots.erase rid }
      | none => { heap with db := db }
  | .plainInsert rid columns =>
    if heap.db.records rid = none then
      some (heap.insertRecord rid ⟨loadedRecord, columns⟩ (heap.db.loadRecord rid))
    else none
  | .plainDelete rid image => some (heap.deleteRecord rid image)
  | .plainUpdate rid old new => some (heap.updateRecord rid old new)
  | .createIndex creator table column => some (heap.createIndex creator table column)

def Heap.keyAt (heap : Heap) (rid : Rid) (column : Column) : Option Key :=
  (heap.image rid).map (·.key column)

/-- The entries are the key and the `RID` of each stored record of the table. -/
def IndexAgrees (heap : Heap) (table : Int) (index : Index) : Prop :=
  ∀ key rid, (key, rid) ∈ index.entries ↔
    rid.tableId = table ∧ heap.keyAt rid index.column = some key

def Agrees (heap : Heap) : Prop :=
  ∀ table, ∀ index ∈ heap.indexes table, IndexAgrees heap table index

end CsuDbms.HeapIndexModel
