import CsuDbms.LoadedRows

/-!
# One statement of an autocommit session

A statement changes records while its operator opens: `INSERT` writes one record, `DELETE` collects
the matching records and then deletes them one by one, `UPDATE` fails at its first record because
`MvccTrx::update_record` is not implemented, and `LOAD DATA` writes its rows past the transaction.
What becomes of the transaction is decided by `SqlResult::close` or, on some exits, by nobody.

The records of a `DELETE` are those its scan collected; other sessions may have acted since. Page
and log failures are inputs (`Faults`). Between opening and closing no other session acts here, so
that the rows before and after can be compared.
-/

namespace CsuDbms.MvccTrxModel

/-- The plain text protocol, or the structured one with `materialize`. -/
inductive Protocol where
  | plain
  | structured
  deriving DecidableEq, Repr

/-- What the operator does to records when it opens. The scan of a `DELETE` collects each record
once. -/
inductive Command where
  | query
  | insert (rid : Rid)
  | update (rids : List Rid)
  | delete (rids : List Rid) (distinct : rids.Nodup)
  | load (rids : List Rid)
  deriving DecidableEq, Repr

inductive RowFault where
  | next
  | cell
  deriving DecidableEq, Repr

structure Faults where
  /-- A child does not open, or the record cannot be made or stored. -/
  prepare : Bool
  /-- The log entry of an insert is refused, after the record is stored. -/
  insertLog : Bool
  /-- The `n`-th record cannot be visited, or the `n`-th line not be loaded. -/
  record : Nat → Bool
  rows : Option RowFault
  close : Bool
  commitLog : Bool

/-- `DeletePhysicalOperator::open`, the loop over the collected records. -/
def Db.deleteRecords (handle : Nat) (fault : Nat → Bool) : Db → Nat → List Rid → Bool × Db
  | db, _, [] => (true, db)
  | db, i, rid :: rest =>
    if fault i then (false, db)
    else if (db.deleteRecord handle rid).1 = .success then
      Db.deleteRecords handle fault (db.deleteRecord handle rid).2 (i + 1) rest
    else (false, db)

/-- `LoadDataExecutor::load_data`, one slot for each line. -/
def Db.loadRecords (fault : Nat → Bool) : Db → Nat → List Rid → Bool × Db
  | db, _, [] => (true, db)
  | db, i, rid :: rest =>
    if fault i ∨ db.records rid ≠ none then (false, db)
    else Db.loadRecords fault (db.loadRecord rid) (i + 1) rest

def Db.openOperator (db : Db) (handle : Nat) (faults : Faults) : Command → Bool × Db
  | .query => (!faults.prepare, db)
  | .insert rid =>
    if faults.prepare ∨ db.records rid ≠ none then (false, db)
    else (!faults.insertLog, db.insertRecord handle rid)
  | .update rids => (!faults.prepare && rids.isEmpty, db)
  | .delete rids _ =>
    if faults.prepare then (false, db) else db.deleteRecords handle faults.record 0 rids
  | .load _ => (true, db)

/-- `MvccTrx::commit` from its first to its last record, and `destroy_trx`. -/
def Db.commitAll (db : Db) (handle : Nat) : Db :=
  let trx := db.trxs handle
  let commitXid := nextTrxId db.currentTrxId
  ((trx.operations.foldl (fun (db : Db) operation => db.commitOperation commitXid operation)
      { db with currentTrxId := commitXid }).append [.trxCommit trx.trxId commitXid]).setTrx
    handle {}

/-- `MvccTrx::rollback` from its last to its first record, and `destroy_trx`. -/
def Db.rollbackAll (db : Db) (handle : Nat) : Db :=
  let trx := db.trxs handle
  ((trx.operations.reverse.foldl Db.rollbackOperation db).append
    [.trxRollback trx.trxId]).setTrx handle {}

def closeFails (faults : Faults) : Command → Bool
  | .query => faults.close
  | _ => false

/-- `SqlResult::close` outside an explicit transaction. -/
def Db.closeResult (db : Db) (handle : Nat) (faults : Faults) (command : Command) : Db :=
  if closeFails faults command then db.rollbackAll handle else db.commitAll handle

structure Outcome where
  failed : Bool
  db : Db

/-- `write_result_internal` and `materialize` after a successful open. Only a query produces rows;
the plain protocol drops the connection after a failed `next` without closing. -/
def Db.produceRows (db : Db) (protocol : Protocol) (handle : Nat) (faults : Faults)
    (command : Command) : Outcome :=
  match command, faults.rows, protocol with
  | .query, some .next, .plain => { failed := true, db := db.setTrx handle {} }
  | .query, some _, _ => { failed := true, db := db.closeResult handle faults command }
  | _, _, _ =>
    { failed := closeFails faults command || faults.commitLog
      db := db.closeResult handle faults command }

def Db.execute (db : Db) (protocol : Protocol) (handle : Nat) (faults : Faults) :
    Command → Outcome
  | .load rids =>
    { failed := !(db.loadRecords faults.record 0 rids).1
      db := (db.loadRecords faults.record 0 rids).2 }
  | command =>
    match (db.startIfNeed handle).openOperator handle faults command, protocol with
    | (true, opened), _ => opened.produceRows protocol handle faults command
    | (false, opened), .plain =>
      { failed := true, db := opened.closeResult handle faults command }
    | (false, opened), .structured => { failed := true, db := opened }

end CsuDbms.MvccTrxModel
