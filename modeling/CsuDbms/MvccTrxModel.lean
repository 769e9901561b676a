import CsuDbms.TransitionSystem
import Mathlib

/-!
# The MVCC transaction layer

Pure transcription of `MvccTrxKit` and `MvccTrx` over a heap of stamped records. A commit and a
rollback walk the operation list, and other transactions may act between two records, so both are
split into a begin step, one step for each operation and an end step. `ASSERT` is empty in release
builds and is no guard here. Record payloads are never read by this layer and are left out. Every
step also appends the log entries that the record manager and `MvccTrxLogHandler` write, in source
order.
-/

namespace CsuDbms.MvccTrxModel

open Function

inductive RC where
  | success
  | recordInvisible
  | lockedConcurrencyConflict
  | recordNotExist
  deriving DecidableEq, Repr

inductive ReadWriteMode where
  | readOnly
  | readWrite
  deriving DecidableEq, Repr

/-- A record position: the table with the page and slot number of the `RID`. -/
structure Rid where
  tableId : Int
  pageNum : Int
  slotNum : Int
  deriving DecidableEq, Repr

/-- The two hidden columns `__trx_xid_begin` and `__trx_xid_end`. -/
structure Record where
  beginXid : Int
  endXid : Int
  deriving DecidableEq, Repr

/-- `numeric_limits<int32_t>::max()`, the end stamp of a record nobody deletes. -/
def maxTrxId : Int := 2147483647

/-- `++current_trx_id_` on an `atomic<int32_t>`, which wraps around. -/
def nextTrxId (current : Int) : Int := Int.bmod (current + 1) 4294967296

theorem next_trx_id_eq {current : Int} (nonneg : 0 ≤ current)
    (bound : current + 1 < maxTrxId) : nextTrxId current = current + 1 := by
  unfold nextTrxId maxTrxId at *
  rw [Int.bmod_def]
  split_ifs <;> omega

/-- `MvccTrx::visit_record` for the transaction with id `trxId`. A record with
a zero stamp matches no branch and stays visible. -/
def visitRecord (trxId : Int) (record : Record) (mode : ReadWriteMode) : RC :=
  if 0 < record.beginXid ∧ 0 < record.endXid then
    if record.beginXid ≤ trxId ∧ trxId ≤ record.endXid then .success
    else .recordInvisible
  else if record.beginXid < 0 then
    if -record.beginXid = trxId then .success else .recordInvisible
  else if record.endXid < 0 then
    match mode with
    | .readOnly => if -record.endXid ≠ trxId then .success else .recordInvisible
    | .readWrite =>
      if -record.endXid ≠ trxId then .lockedConcurrencyConflict
      else .recordInvisible
  else .success

inductive OperationType where
  | insert
  | delete
  deriving DecidableEq, Repr

structure Operation where
  type : OperationType
  rid : Rid
  deriving DecidableEq, Repr

/-- Where a transaction stands inside the loop of `commit_with_trx_id` or of
`rollback`: the operations that the loop has not reached yet. -/
inductive EndLoop where
  | none
  | commit (commitXid : Int) (rest : List Operation)
  | rollback (rest : List Operation)
  deriving DecidableEq, Repr

/-- A transaction object. `create_trx` builds the default value and the
session drops the object right after `commit` or `rollback` returns. -/
structure MvccTrx where
  trxId : Int := -1
  started : Bool := false
  operations : List Operation := []
  endLoop : EndLoop := .none
  deriving DecidableEq, Repr

/-- The operations still ahead: all of them while the transaction runs, the
unvisited rest once it ends. -/
def MvccTrx.pending (trx : MvccTrx) : List Operation :=
  match trx.endLoop with
  | .none => trx.operations
  | .commit _ rest => rest
  | .rollback rest => rest

inductive LogEntry where
  | recordInsert (rid : Rid) (record : Record)
  | recordUpdate (rid : Rid) (record : Record)
  | recordDelete (rid : Rid)
  | trxInsert (trxId : Int) (rid : Rid)
  | trxDelete (trxId : Int) (rid : Rid)
  | trxCommit (trxId : Int) (commitXid : Int)
  | trxRollback (trxId : Int)
  deriving DecidableEq, Repr

structure Db where
  currentTrxId : Int
  records : Rid → Option Record
  trxs : Nat → MvccTrx
  log : List LogEntry

def Db.empty : Db where
  currentTrxId := 0
  records := fun _ => none
  trxs := fun _ => {}
  log := []

inductive Action where
  | startIfNeed (handle : Nat)
  | insertRecord (handle : Nat) (rid : Rid)
  | deleteRecord (handle : Nat) (rid : Rid)
  | commit (handle : Nat)
  | commitNext (handle : Nat)
  | commitEnd (handle : Nat)
  | rollback (handle : Nat)
  | rollbackNext (handle : Nat)
  | rollbackEnd (handle : Nat)
  | destroyTrx (handle : Nat)
  deriving DecidableEq, Repr

def Action.handle : Action → Nat
  | .startIfNeed handle => handle
  | .insertRecord handle _ => handle
  | .deleteRecord handle _ => handle
  | .commit handle => handle
  | .commitNext handle => handle
  | .commitEnd handle => handle
  | .rollback handle => handle
  | .rollbackNext handle => handle
  | .rollbackEnd handle => handle
  | .destroyTrx handle => handle

@[simps -fullyApplied]
def Db.setTrx (db : Db) (handle : Nat) (trx : MvccTrx) : Db :=
  { db with trxs := update db.trxs handle trx }

@[simps -fullyApplied]
def Db.setRecord (db : Db) (rid : Rid) (record : Option Record) : Db :=
  { db with records := update db.records rid record }

@[simps -fullyApplied]
def Db.append (db : Db) (entries : List LogEntry) : Db :=
  { db with log := db.log ++ entries }

/-- `Table::visit_record` with an updater that changes the record: a missing
record is reported and nothing is written. -/
def Db.updateRecord (db : Db) (rid : Rid) (update : Record → Record) : Db :=
  match db.records rid with
  | none => db
  | some record =>
    (db.setRecord rid (some (update record))).append [.recordUpdate rid (update record)]

def Db.startIfNeed (db : Db) (handle : Nat) : Db :=
  if (db.trxs handle).started then db
  else
    { (db.setTrx handle
        { db.trxs handle with trxId := nextTrxId db.currentTrxId, started := true }) with
      currentTrxId := nextTrxId db.currentTrxId }

/-- `MvccTrx::insert_record` into the free slot `rid` that the heap chose. -/
def Db.insertRecord (db : Db) (handle : Nat) (rid : Rid) : Db :=
  let trx := db.trxs handle
  let record : Record := { beginXid := -trx.trxId, endXid := maxTrxId }
  ((db.setRecord rid (some record)).append
      [.recordInsert rid record, .trxInsert trx.trxId rid]).setTrx handle
    { trx with operations := trx.operations ++ [⟨.insert, rid⟩] }

/-- `MvccTrx::delete_record`: the result of the visit, and the new state. -/
def Db.deleteRecord (db : Db) (handle : Nat) (rid : Rid) : RC × Db :=
  let trx := db.trxs handle
  match db.records rid with
  | none => (.recordNotExist, db)
  | some record =>
    match visitRecord trx.trxId record .readWrite with
    | .success =>
      (.success,
        ((db.updateRecord rid fun record => { record with endXid := -trx.trxId }).append
            [.trxDelete trx.trxId rid]).setTrx handle
          { trx with operations := trx.operations ++ [⟨.delete, rid⟩] })
    | rc => (rc, db)

def Db.commitOperation (db : Db) (commitXid : Int) (operation : Operation) : Db :=
  match operation.type with
  | .insert => db.updateRecord operation.rid fun record => { record with beginXid := commitXid }
  | .delete => db.updateRecord operation.rid fun record => { record with endXid := commitXid }

/-- One round of the loop in `rollback`, outside recovery. -/
def Db.rollbackOperation (db : Db) (operation : Operation) : Db :=
  match operation.type with
  | .insert => (db.setRecord operation.rid none).append [.recordDelete operation.rid]
  | .delete => db.updateRecord operation.rid fun record => { record with endXid := maxTrxId }

/-- One atomic step. The statements of a session run only after
`start_if_need` and never while its `commit` or `rollback` is on the way. -/
def step (db : Db) : Action → Option Db
  | .startIfNeed handle =>
    if (db.trxs handle).endLoop = .none then some (db.startIfNeed handle) else none
  | .insertRecord handle rid =>
    if (db.trxs handle).started ∧ (db.trxs handle).endLoop = .none ∧ db.records rid = none then
      some (db.insertRecord handle rid)
    else none
  | .deleteRecord handle rid =>
    if (db.trxs handle).started ∧ (db.trxs handle).endLoop = .none then
      some (db.deleteRecord handle rid).2
    else none
  | .commit handle =>
    let trx := db.trxs handle
    if trx.endLoop = .none then
      some { (db.setTrx handle
          { trx with
            started := false
            endLoop := .commit (nextTrxId db.currentTrxId) trx.operations }) with
        currentTrxId := nextTrxId db.currentTrxId }
    else none
  | .commitNext handle =>
    let trx := db.trxs handle
    match trx.endLoop with
    | .commit commitXid (operation :: rest) =>
      some ((db.commitOperation commitXid operation).setTrx handle
        { trx with endLoop := .commit commitXid rest })
    | _ => none
  | .commitEnd handle =>
    let trx := db.trxs handle
    match trx.endLoop with
    | .commit commitXid [] =>
      some ((db.append [.trxCommit trx.trxId commitXid]).setTrx handle {})
    | _ => none
  | .rollback handle =>
    let trx := db.trxs handle
    if trx.endLoop = .none then
      some (db.setTrx handle
        { trx with started := false, endLoop := .rollback trx.operations.reverse })
    else none
  | .rollbackNext handle =>
    let trx := db.trxs handle
    match trx.endLoop with
    | .rollback (operation :: rest) =>
      some ((db.rollbackOperation operation).setTrx handle
        { trx with endLoop := .rollback rest })
    | _ => none
  | .rollbackEnd handle =>
    let trx := db.trxs handle
    match trx.endLoop with
    | .rollback [] => some ((db.append [.trxRollback trx.trxId]).setTrx handle {})
    | _ => none
  | .destroyTrx handle =>
    if (db.trxs handle).endLoop = .none then some (db.setTrx handle {}) else none

section

variable (db : Db) (rid : Rid) (update : Record → Record) (commitXid : Int)
  (operation : Operation)

@[simp] theorem update_record_current :
    (db.updateRecord rid update).currentTrxId = db.currentTrxId := by
  unfold Db.updateRecord
  split <;> rfl

@[simp] theorem update_record_trxs :
    (db.updateRecord rid update).trxs = db.trxs := by
  unfold Db.updateRecord
  split <;> rfl

@[simp] theorem update_record_records :
    (db.updateRecord rid update).records =
      Function.update db.records rid ((db.records rid).map update) := by
  unfold Db.updateRecord
  split
  · rename_i missing
    rw [missing, Option.map_none, ← missing, Function.update_eq_self]
  · rename_i record found
    simp [found]

@[simp] theorem commit_operation_current :
    (db.commitOperation commitXid operation).currentTrxId = db.currentTrxId := by
  unfold Db.commitOperation
  split <;> simp

@[simp] theorem commit_operation_trxs :
    (db.commitOperation commitXid operation).trxs = db.trxs := by
  unfold Db.commitOperation
  split <;> simp

@[simp] theorem rollback_operation_current :
    (db.rollbackOperation operation).currentTrxId = db.currentTrxId := by
  unfold Db.rollbackOperation
  split <;> simp

@[simp] theorem rollback_operation_trxs :
    (db.rollbackOperation operation).trxs = db.trxs := by
  unfold Db.rollbackOperation
  split <;> simp

@[simp] theorem start_if_need_records (handle : Nat) :
    (db.startIfNeed handle).records = db.records := by
  unfold Db.startIfNeed
  split <;> rfl

end

variable {db : Db} {handle : Nat}

theorem delete_record_of_success {rid : Rid} (deleted : (db.deleteRecord handle rid).1 = .success) :
    ∃ record, db.records rid = some record ∧
      visitRecord (db.trxs handle).trxId record .readWrite = .success ∧
      (db.deleteRecord handle rid).2 =
        ((db.updateRecord rid fun record =>
            { record with endXid := -(db.trxs handle).trxId }).append
          [.trxDelete (db.trxs handle).trxId rid]).setTrx handle
            { db.trxs handle with
              operations := (db.trxs handle).operations ++ [⟨.delete, rid⟩] } := by
  cases found : db.records rid with
  | none => simp [Db.deleteRecord, found] at deleted
  | some record =>
    cases visited : visitRecord (db.trxs handle).trxId record .readWrite <;>
      simp [Db.deleteRecord, found, visited] at deleted ⊢

theorem delete_record_of_failure {rid : Rid} (refused : (db.deleteRecord handle rid).1 ≠ .success) :
    (db.deleteRecord handle rid).2 = db := by
  cases found : db.records rid with
  | none => simp [Db.deleteRecord, found]
  | some record =>
    cases visited : visitRecord (db.trxs handle).trxId record .readWrite <;>
      simp [Db.deleteRecord, found, visited] at refused ⊢

variable {next : Db}

theorem step_commit_next (taken : step db (.commitNext handle) = some next) :
    ∃ commitXid operation rest,
      (db.trxs handle).endLoop = .commit commitXid (operation :: rest) ∧
      next = (db.commitOperation commitXid operation).setTrx handle
        { db.trxs handle with endLoop := .commit commitXid rest } := by
  simp only [step] at taken
  split at taken
  · rename_i commitXid operation rest loop
    exact ⟨commitXid, operation, rest, loop, (Option.some.inj taken).symm⟩
  · cases taken

theorem step_commit_end (taken : step db (.commitEnd handle) = some next) :
    ∃ commitXid, (db.trxs handle).endLoop = .commit commitXid [] ∧
      next = (db.append [.trxCommit (db.trxs handle).trxId commitXid]).setTrx handle {} := by
  simp only [step] at taken
  split at taken <;> simp_all

theorem step_rollback_next (taken : step db (.rollbackNext handle) = some next) :
    ∃ operation rest,
      (db.trxs handle).endLoop = .rollback (operation :: rest) ∧
      next = (db.rollbackOperation operation).setTrx handle
        { db.trxs handle with endLoop := .rollback rest } := by
  simp only [step] at taken
  split at taken
  · rename_i operation rest loop
    exact ⟨operation, rest, loop, (Option.some.inj taken).symm⟩
  · cases taken

theorem step_rollback_end (taken : step db (.rollbackEnd handle) = some next) :
    (db.trxs handle).endLoop = .rollback [] ∧
      next = (db.append [.trxRollback (db.trxs handle).trxId]).setTrx handle {} := by
  simp only [step] at taken
  split at taken <;> simp_all

/-- What a read-only visit by transaction `trxId` reports for the slot `rid`. -/
def visibleTo (db : Db) (trxId : Int) (rid : Rid) : Bool :=
  match db.records rid with
  | none => false
  | some record => visitRecord trxId record .readOnly == .success

end CsuDbms.MvccTrxModel
