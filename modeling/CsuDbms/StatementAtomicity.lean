import CsuDbms.StatementModel

/-!
# What a failed statement leaves behind

A statement that reports an error is expected to leave the rows as they were,
for every transaction that starts later and for the later statements of its own
session.
-/

namespace CsuDbms.MvccTrxModel

open TransitionSystem List Option Function Db

/-- An id a later transaction can have, or the id under which the session goes
on because the statement left its transaction open. -/
def LaterId (db : Db) (handle : Nat) (trxId : Int) : Prop :=
  (db.currentTrxId < trxId ∧ trxId < maxTrxId) ∨
    ((db.trxs handle).started = true ∧ trxId = (db.trxs handle).trxId)

def SameRows (before after : Db) (handle : Nat) : Prop :=
  ∀ trxId rid, LaterId after handle trxId → visibleTo after trxId rid = visibleTo before trxId rid

/-- A session between two statements in autocommit: no transaction of it is being ended, and the
plain protocol has left none open. -/
structure BetweenStatements (protocol : Protocol) (db : Db) (handle : Nat) : Prop where
  settled : (db.trxs handle).endLoop = .none
  ended : protocol = .plain → (db.trxs handle).started = false

/-- The id under which the statement runs: that of the transaction an earlier statement left open,
or a new one. -/
def Db.sessionId (db : Db) (handle : Nat) : Int :=
  if (db.trxs handle).started then (db.trxs handle).trxId else nextTrxId db.currentTrxId

def Deletable (db : Db) (trxId : Int) (rid : Rid) : Prop :=
  ∃ record ∈ db.records rid, visitRecord trxId record .readWrite = .success

instance (db : Db) (trxId : Int) (rid : Rid) : Decidable (Deletable db trxId rid) :=
  inferInstanceAs (Decidable (∃ record ∈ db.records rid, _))

/-- The records in front of the first one that cannot be visited or is not deletable. -/
def deletedFrom (db : Db) (trxId : Int) (fault : Nat → Bool) : Nat → List Rid → List Rid
  | _, [] => []
  | i, rid :: rest =>
    if fault i = true ∨ ¬Deletable db trxId rid then []
    else rid :: deletedFrom db trxId fault (i + 1) rest

def Command.deleted (db : Db) (trxId : Int) (faults : Faults) : Command → List Rid
  | .delete rids _ => if faults.prepare then [] else deletedFrom db trxId faults.record 0 rids
  | _ => []

def Command.opens (db : Db) (trxId : Int) (faults : Faults) : Command → Bool
  | .update rids => !faults.prepare && rids.isEmpty
  | .delete rids _ =>
    !faults.prepare && decide (deletedFrom db trxId faults.record 0 rids = rids)
  | _ => !faults.prepare

/-- What becomes of the transaction of a failed query, `UPDATE` or `DELETE`. -/
inductive Fate where
  | leftOpen
  | committed
  | undone

def fate (protocol : Protocol) (faults : Faults) (command : Command) (opens : Bool) : Fate :=
  match opens, protocol, command, faults.rows with
  | false, .structured, _, _ => .leftOpen
  | true, .plain, .query, some .next => .undone
  | _, _, _, _ => if closeFails faults command then .undone else .committed

/-- The record shows a change of the transaction that its commit makes visible: its insert, or its
delete of a row that another transaction inserted. -/
def Uncommitted (trxId : Int) (record : Record) : Prop :=
  (record.beginXid = -trxId ∧ record.endXid = maxTrxId) ∨
    (0 < record.beginXid ∧ record.endXid = -trxId)

/-- A transaction that stays open may have deleted rows of its own only. One that is committed may
have deleted its own rows, loaded rows, which a committed delete hides from nobody, and rows that
are deleted already, and earlier statements may have left no other change open in it. -/
def Fate.Keeps (db : Db) (trxId : Int) (deleted : List Rid) : Fate → Prop
  | .leftOpen => ∀ rid ∈ deleted, ∀ record ∈ db.records rid, record.beginXid = -trxId
  | .committed => ∀ rid, ∀ record ∈ db.records rid,
      if rid ∈ deleted then record.beginXid ≤ 0 ∨ record.endXid ≠ maxTrxId
      else ¬Uncommitted trxId record
  | .undone => True

/-- When a failed statement leaves the rows as they were. -/
def KeepsRows (protocol : Protocol) (db : Db) (handle : Nat) (faults : Faults) : Command → Prop
  | .insert rid => faults.prepare = true ∨ db.records rid ≠ none
  | .load [] => True
  | .load (rid :: _) => faults.record 0 = true ∨ db.records rid ≠ none
  | command =>
    let trxId := db.sessionId handle
    (fate protocol faults command (command.opens db trxId faults)).Keeps db trxId
      (command.deleted db trxId faults)

/-- What the stamps of a stored record can be. -/
structure Stamped (current : Int) (record : Record) : Prop where
  begun : record.beginXid ≤ current
  ended : record.endXid ≤ current ∨ record.endXid = maxTrxId
  loaded : record.endXid = 0 → record.beginXid = 0
  own : record.beginXid < 0 → record.endXid = record.beginXid ∨ record.endXid = maxTrxId

section Stamps

variable {state : Loading} {rid : Rid} {record : Record}

theorem max_ne_zero : maxTrxId ≠ 0 := by decide

theorem stamped_act {next : Tracked} {action : Action} {state : Tracked}
    (accounted : Accounted state)
    (stamped : ∀ rid record, state.db.records rid = some record →
      Stamped state.db.currentTrxId record)
    (met : CounterFits state.db action) (taken : trackedStep state action = some next) :
    ∀ rid record, next.db.records rid = some record → Stamped next.db.currentTrxId record := by
  have ids := accounted.ids
  have grows := (ids_after_step ids.counterLow met taken).1
  have later : ∀ record, Stamped state.db.currentTrxId record →
      Stamped next.db.currentTrxId record := fun _ ⟨begun, ended, loaded, own⟩ =>
    ⟨begun.trans grows, ended.imp_left (Int.le_trans · grows), loaded, own⟩
  intro rid record stored
  apply later
  have low := ids.counterLow
  rcases slot_step taken rid with ⟨same, -⟩ | change
  · exact stamped rid record (same ▸ stored)
  generalize next.db.records rid = written, next.history.rows rid = row at stored change
  cases change with
  | @insert handle started =>
    cases stored
    have running := ((ids.trx handle).startedLoop started).2
    exact ⟨by simp only; omega, .inr rfl, fun zero => absurd zero max_ne_zero, fun _ => .inr rfl⟩
  | @delete handle old started before visited =>
    cases stored
    have running := ((ids.trx handle).startedLoop started).2
    have admitted := visit_read_write_success visited
    refine ⟨(stamped rid old before).begun, .inl (by simp only; omega), fun zero => ?_,
      fun negative => .inl ?_⟩
    · simp only at zero
      omega
    · simp only at negative ⊢
      omega
  | @commitInsert handle commitXid rest loop =>
    obtain ⟨old, before, rfl⟩ := map_eq_some_iff.mp stored
    obtain ⟨ahead, positive, logged⟩ := committing_head ids loop
    have bound := (ids.commitBound _ _ logged).2.2
    obtain ⟨found, same, begun⟩ := (accounted.pending.trx handle).shown .insert rid ahead
    obtain rfl : found = old := some.inj (same.symm.trans before)
    have running := running_of_pending ids ahead
    refine ⟨bound, (stamped rid found before).ended, fun zero => ?_, fun negative => ?_⟩
    · have loaded := (stamped rid found before).loaded zero
      have marked : found.beginXid = -(state.db.trxs handle).trxId := begun
      omega
    · simp only at negative
      omega
  | @commitDelete handle commitXid rest loop =>
    obtain ⟨old, before, rfl⟩ := map_eq_some_iff.mp stored
    obtain ⟨ahead, positive, logged⟩ := committing_head ids loop
    have bound := (ids.commitBound _ _ logged).2.2
    obtain ⟨found, same, shows⟩ := (accounted.pending.trx handle).shown .delete rid ahead
    obtain rfl : found = old := some.inj (same.symm.trans before)
    refine ⟨(stamped rid found before).begun, .inl bound, fun zero => ?_, fun negative => ?_⟩
    · simp only at zero
      omega
    · -- the insert of a row is committed before its delete
      rcases shows with ⟨inserted, -⟩ | ⟨nonneg, -⟩ | ⟨other, committing, rfl⟩
      · have ordered := (accounted.pending.trx handle).ordered
        simp only [MvccTrx.ordered, loop, pairwise_cons] at ordered
        rw [pending_committing loop] at inserted
        have rest := (mem_cons.mp inserted).resolve_left (by simp)
        exact absurd rfl (ordered.1 ⟨.insert, rid⟩ rest rfl)
      · simp only at negative
        omega
      · have := (commit_id_positive ids (running_of_pending ids ahead) committing).1
        simp only at negative
        omega
  | rollbackInsert => cases stored
  | rollbackDelete =>
    obtain ⟨old, before, rfl⟩ := map_eq_some_iff.mp stored
    exact ⟨(stamped rid old before).begun, .inr rfl, fun zero => absurd zero max_ne_zero,
      fun _ => .inr rfl⟩

structure Drawn (db : Db) : Prop where
  stamped : ∀ rid record, db.records rid = some record → Stamped db.currentTrxId record
  bound : ∀ type rid record, db.records rid = some record → -db.currentTrxId ≤ record.stamp type

/-- What holds of every reached state and a session that ends no transaction in it. -/
structure Settled (db : Db) (handle : Nat) : Prop extends Drawn db where
  low : 0 ≤ db.currentTrxId
  looping : (db.trxs handle).endLoop = .none
  idle : (db.trxs handle).started = false → db.trxs handle = {}
  running : (db.trxs handle).started = true →
    0 < (db.trxs handle).trxId ∧ (db.trxs handle).trxId ≤ db.currentTrxId
  operations : ∀ type rid, ⟨type, rid⟩ ∈ (db.trxs handle).operations ↔
    (db.trxs handle).started = true ∧ ∃ record ∈ db.records rid,
      record.stamp type = -(db.trxs handle).trxId

theorem settled_of_reaches {handle : Nat} (reached : Reaches loadStep IdsLast Loading.empty state)
    (settled : (state.tracked.db.trxs handle).endLoop = .none) :
    Settled state.tracked.db handle := by
  obtain ⟨accounted, stamped⟩ : Accounted state.tracked ∧ ∀ rid record,
      state.tracked.db.records rid = some record →
        Stamped state.tracked.db.currentTrxId record := by
    refine reaches_invariant (fun state => Accounted state.tracked ∧ ∀ rid record,
      state.tracked.db.records rid = some record →
        Stamped state.tracked.db.currentTrxId record) ?_ ⟨accounted_empty, ?_⟩ reached
    rotate_left
    · simp [Loading.empty, Tracked.empty, Db.empty]
    intro before action after holds met taken
    obtain ⟨accounted, stamped⟩ := holds
    cases action with
    | load rid =>
      obtain ⟨free, ⟨⟩⟩ := ite_none_right_eq_some.mp taken
      refine ⟨accounted_load accounted free, fun place record stored => ?_⟩
      rw [loaded_slots] at stored
      split at stored
      · cases stored
        exact ⟨accounted.ids.counterLow, .inl accounted.ids.counterLow, fun _ => rfl,
          fun negative => absurd negative (by decide)⟩
      · exact stamped place record stored
    | act action =>
      obtain ⟨tracked, stepped, rfl⟩ := map_eq_some_iff.mp taken
      exact ⟨accounted_step accounted met stepped, stamped_act accounted stamped met stepped⟩
  have ids := accounted.ids
  have trx := ids.trx handle
  have pending := pending_running settled
  refine ⟨⟨stamped, accounted.stamps.bound⟩, ids.counterLow, settled, fun unstarted => ?_,
    fun started => ⟨(trx.startedLoop started).2, trx.idHigh⟩,
    fun type rid => ⟨fun member => ?_, ?_⟩⟩
  · have id : (state.tracked.db.trxs handle).trxId = -1 := by
      refine trx.idLow.resolve_right fun running => ?_
      rcases trx.runningLoop running with started | looping
      · exact Bool.false_ne_true (unstarted.symm.trans started)
      · exact looping settled
    have empty := (trx.unstarted id).2
    rw [pending] at empty
    cases same : state.tracked.db.trxs handle
    simp_all
  · rw [← pending] at member
    have running := running_of_pending ids member
    have started : (state.tracked.db.trxs handle).started = true :=
      (trx.runningLoop running).resolve_right (fun looping => looping settled)
    obtain ⟨record, stored, shows⟩ := (accounted.pending.trx handle).shown type rid member
    refine ⟨started, record, stored, ?_⟩
    cases type with
    | insert => exact shows
    | delete =>
      rcases shows with ⟨-, marked | ⟨rest, rolling⟩⟩ | ⟨-, marked⟩ |
        ⟨other, ⟨rest, committing⟩, -⟩
      · exact marked
      · cases settled.symm.trans rolling
      · exact marked
      · cases settled.symm.trans committing
  · rintro ⟨started, record, stored, marked⟩
    rw [← pending]
    exact accounted.stamps.ahead handle type rid record stored (trx.startedLoop started).2 marked

end Stamps

section Rows

variable {before after : Db} {handle : Nat}

/-- The record is seen by every id that is still to be drawn. -/
def Record.lasts (record : Record) : Prop :=
  0 ≤ record.beginXid ∧
    (record.beginXid = 0 ∨ record.endXid ≤ 0 ∨ record.endXid = maxTrxId)

instance (record : Record) : Decidable record.lasts :=
  inferInstanceAs (Decidable (_ ∧ _))

theorem visit_later {current trxId : Int} {record : Record} (stamped : Stamped current record)
    (bound : ∀ type, -current ≤ record.stamp type) (new : current < trxId)
    (below : trxId < maxTrxId) :
    visitRecord trxId record .readOnly = .success ↔ record.lasts := by
  have begun := stamped.begun
  have ended := stamped.ended
  have lowBegin : -current ≤ record.beginXid := bound .insert
  have lowEnd : -current ≤ record.endXid := bound .delete
  unfold visitRecord Record.lasts
  split_ifs <;> simp <;> omega

/-- The row is seen by every id that is still to be drawn. -/
def lasting (db : Db) (rid : Rid) : Bool := (db.records rid).any fun record => record.lasts

theorem visible_later {db : Db} {current trxId : Int} (drawn : Drawn db)
    (grown : db.currentTrxId ≤ current) (new : current < trxId) (below : trxId < maxTrxId)
    (rid : Rid) : visibleTo db trxId rid = lasting db rid := by
  unfold visibleTo lasting
  cases stored : db.records rid with
  | none => rfl
  | some record =>
    have seen := visit_later (drawn.stamped rid record stored)
      (fun type => drawn.bound type rid record stored) (grown.trans_lt new) below
    rw [any_some, decide_eq_decide.mpr seen.symm]
    rfl

/-- With the transaction ended, the later ids are the new ones. -/
theorem same_rows_ended_iff (drawnBefore : Drawn before) (drawnAfter : Drawn after)
    (grown : before.currentTrxId ≤ after.currentTrxId) (room : after.currentTrxId + 1 < maxTrxId)
    (ended : (after.trxs handle).started = false) :
    SameRows before after handle ↔ ∀ rid, lasting after rid = lasting before rid := by
  constructor
  · intro same rid
    have new : LaterId after handle (after.currentTrxId + 1) := .inl ⟨Int.lt_succ _, room⟩
    rw [← visible_later drawnAfter le_rfl (Int.lt_succ _) room rid, same _ rid new]
    exact visible_later drawnBefore grown (Int.lt_succ _) room rid
  · intro same trxId rid later
    rcases later with ⟨new, below⟩ | ⟨started, -⟩
    · rw [visible_later drawnAfter le_rfl new below, same rid,
        visible_later drawnBefore grown new below]
    · cases ended.symm.trans started

end Rows

section Opening

variable {db opened : Db} {handle : Nat} {rid : Rid} {trxId : Int} {faults : Faults}

theorem start_if_need_session (settled : Settled db handle) :
    (db.startIfNeed handle).trxs handle =
      { trxId := db.sessionId handle, started := true,
        operations := (db.trxs handle).operations } := by
  have looping := settled.looping
  cases started : (db.trxs handle).started with
  | true =>
    simp only [startIfNeed, started, sessionId, if_true]
    cases same : db.trxs handle
    simp_all
  | false => simp [startIfNeed, sessionId, settled.idle started]

theorem mem_of_mem_deletedFrom {fault : Nat → Bool} {i : Nat} {rids : List Rid}
    (member : rid ∈ deletedFrom db trxId fault i rids) : rid ∈ rids ∧ Deletable db trxId rid := by
  induction rids generalizing i with
  | nil => cases member
  | cons first rest ih =>
    rw [deletedFrom] at member
    split at member
    · cases member
    · rename_i accepted
      rcases mem_cons.mp member with rfl | later
      · exact ⟨mem_cons_self, not_not.mp (not_or.mp accepted).2⟩
      · exact ⟨mem_cons_of_mem _ (ih later).1, (ih later).2⟩

/-- The collected records are deleted, in the open transaction of the session. -/
structure DeletesInto (db : Db) (handle : Nat) (trxId : Int) (deleted : List Rid) (opened : Db) :
    Prop where
  records : ∀ rid, opened.records rid = if rid ∈ deleted then
    (db.records rid).map fun record => { record with endXid := -trxId } else db.records rid
  trx : opened.trxs handle = { db.trxs handle with
    operations := (db.trxs handle).operations ++ deleted.map (⟨.delete, ·⟩) }
  current : opened.currentTrxId = db.currentTrxId

theorem deletes_nothing (db : Db) (handle : Nat) (trxId : Int) :
    DeletesInto db handle trxId [] db :=
  ⟨by simp, by simp, rfl⟩

theorem delete_records_spec {base : Db} (fault : Nat → Bool) (i : Nat) {rids : List Rid}
    (distinct : rids.Nodup) (same : ∀ rid ∈ rids, db.records rid = base.records rid)
    (id : (db.trxs handle).trxId = trxId) :
    (db.deleteRecords handle fault i rids).1 =
        decide (deletedFrom base trxId fault i rids = rids) ∧
      DeletesInto db handle trxId (deletedFrom base trxId fault i rids)
        (db.deleteRecords handle fault i rids).2 := by
  induction rids generalizing db i with
  | nil => exact ⟨by simp [deleteRecords, deletedFrom], deletes_nothing db handle trxId⟩
  | cons rid rest ih =>
    obtain ⟨fresh, distinct⟩ := nodup_cons.mp distinct
    have here := same rid mem_cons_self
    by_cases refused : fault i = true ∨ ¬Deletable base trxId rid
    · rw [deletedFrom, if_pos refused]
      have stops : db.deleteRecords handle fault i (rid :: rest) = (false, db) := by
        simp only [deleteRecords]
        split
        · rfl
        · rename_i readable
          refine if_neg fun deleted => ?_
          obtain ⟨record, stored, visited, -⟩ := delete_record_of_success deleted
          exact refused.resolve_left readable ⟨record, here ▸ stored, id ▸ visited⟩
      rw [stops]
      exact ⟨by simp, deletes_nothing db handle trxId⟩
    · rw [deletedFrom, if_neg refused]
      obtain ⟨readable, deletable⟩ := not_or.mp refused
      obtain ⟨record, stored, visited⟩ := not_not.mp deletable
      have deleted : (db.deleteRecord handle rid).1 = .success := by
        have found : db.records rid = some record := here ▸ stored
        simp [deleteRecord, found, id, visited]
      obtain ⟨-, -, -, written⟩ := delete_record_of_success deleted
      have later : ∀ place ∈ rest,
          (db.deleteRecord handle rid).2.records place = base.records place := by
        intro place member
        have there : place ≠ rid := fun equal => fresh (equal ▸ member)
        simp [written, there, same place (mem_cons_of_mem _ member)]
      obtain ⟨result, into⟩ := ih (i + 1) distinct later (by simp [written, id])
      have goes : db.deleteRecords handle fault i (rid :: rest) =
          (db.deleteRecord handle rid).2.deleteRecords handle fault (i + 1) rest := by
        simp [deleteRecords, readable, deleted]
      rw [goes]
      refine ⟨by simp [result], fun place => ?_, ?_, ?_⟩
      · rw [into.records]
        by_cases there : place = rid
        · subst there
          have once : place ∉ deletedFrom base trxId fault (i + 1) rest := fun member =>
            fresh (mem_of_mem_deletedFrom member).1
          simp [once, written, id]
        · simp [written, there]
      · rw [into.trx]
        simp [written]
      · rw [into.current]
        simp [written]

/-- Commands whose transaction is looked at here: the others insert a record or load a file. -/
def Command.reads : Command → Bool
  | .insert _ | .load _ => false
  | _ => true

theorem open_operator_spec (settled : Settled db handle) {command : Command}
    (reads : command.reads) :
    ((db.startIfNeed handle).openOperator handle faults command).1 =
        command.opens db (db.sessionId handle) faults ∧
      DeletesInto (db.startIfNeed handle) handle (db.sessionId handle)
        (command.deleted db (db.sessionId handle) faults)
        ((db.startIfNeed handle).openOperator handle faults command).2 := by
  have trx := start_if_need_session settled
  cases command with
  | insert | load => cases reads
  | query | update => exact ⟨rfl, deletes_nothing ..⟩
  | delete rids distinct =>
    obtain ⟨result, into⟩ := @delete_records_spec (db.startIfNeed handle) handle
      (db.sessionId handle) db faults.record 0 rids distinct (by simp) (by simp [trx])
    cases prepared : faults.prepare with
    | true => simpa [openOperator, prepared, Command.opens, Command.deleted] using
        deletes_nothing _ handle _
    | false => simpa [openOperator, prepared, Command.opens, Command.deleted, result] using into

theorem execute_spec {protocol : Protocol} (settled : Settled db handle) {command : Command}
    (reads : command.reads) :
    ∃ opened, DeletesInto (db.startIfNeed handle) handle (db.sessionId handle)
        (command.deleted db (db.sessionId handle) faults) opened ∧
      match fate protocol faults command (command.opens db (db.sessionId handle) faults) with
      | .leftOpen => (db.execute protocol handle faults command).db = opened
      | .committed => (db.execute protocol handle faults command).db = opened.commitAll handle
      | .undone => command.deleted db (db.sessionId handle) faults = [] ∧
          ((db.execute protocol handle faults command).db = opened.rollbackAll handle ∨
            protocol = .plain ∧
              (db.execute protocol handle faults command).db = opened.setTrx handle {}) := by
  obtain ⟨result, into⟩ := @open_operator_spec db handle faults settled command reads
  refine ⟨_, into, ?_⟩
  rw [← result]
  generalize opening : (db.startIfNeed handle).openOperator handle faults command = opened
  obtain ⟨opens, opened⟩ := opened
  cases command with
  | insert | load => cases reads
  | update | delete =>
    cases opens <;> cases protocol <;>
      simp [execute, opening, fate, produceRows, closeResult, closeFails]
  | query =>
    cases opens <;> cases protocol <;> cases rows : faults.rows with
    | none => cases closing : faults.close <;>
        simp [execute, opening, fate, produceRows, closeResult, closeFails, rows, closing,
          Command.deleted]
    | some fault => cases fault <;> cases closing : faults.close <;>
        simp [execute, opening, fate, produceRows, closeResult, closeFails, rows, closing,
          Command.deleted]

end Opening

section Session

variable {db opened : Db} {handle : Nat} {rid : Rid} {record : Record} {deleted : List Rid}
  (settled : Settled db handle) (room : db.currentTrxId + 1 < maxTrxId)
include settled room

theorem session_id_drawn :
    0 < db.sessionId handle ∧ db.sessionId handle ≤ (db.startIfNeed handle).currentTrxId ∧
      db.currentTrxId ≤ (db.startIfNeed handle).currentTrxId ∧
      (db.startIfNeed handle).currentTrxId ≤ db.currentTrxId + 1 := by
  have low := settled.low
  have drawn := next_trx_id_eq low room
  cases started : (db.trxs handle).started with
  | true =>
    have running := settled.running started
    simp only [sessionId, startIfNeed, started, if_true]
    omega
  | false =>
    simp only [sessionId, startIfNeed, started, Bool.false_eq_true, if_false, drawn]
    omega

theorem mem_operations_iff (stored : db.records rid = some record) (type : OperationType) :
    ⟨type, rid⟩ ∈ (db.trxs handle).operations ↔ record.stamp type = -db.sessionId handle := by
  cases started : (db.trxs handle).started with
  | true => simp [settled.operations, started, stored, sessionId]
  | false =>
    have bound := settled.bound type rid record stored
    have drawn := next_trx_id_eq settled.low room
    simp only [settled.idle started, not_mem_nil, sessionId, Bool.false_eq_true, if_false, drawn,
      false_iff]
    omega

end Session

section Endings

variable {db opened : Db} {handle : Nat} {rid : Rid} {record : Record} {deleted : List Rid}

theorem rest_current {step : Db → Operation → Db}
    (same : ∀ db operation, (step db operation).currentTrxId = db.currentTrxId) (db : Db)
    (rest : List Operation) : (rest.foldl step db).currentTrxId = db.currentTrxId := by
  induction rest generalizing db with
  | nil => rfl
  | cons operation rest ih => rw [foldl_cons, ih, same]

theorem commit_rest_records (db : Db) (commitXid : Int) (rest : List Operation) (rid : Rid) :
    (rest.foldl (fun (db : Db) operation => db.commitOperation commitXid operation)
      db).records rid = (db.records rid).map fun record =>
        ⟨if ⟨.insert, rid⟩ ∈ rest then commitXid else record.beginXid,
          if ⟨.delete, rid⟩ ∈ rest then commitXid else record.endXid⟩ := by
  induction rest generalizing db with
  | nil => simp
  | cons operation rest ih =>
    obtain ⟨type, place⟩ := operation
    rw [foldl_cons, ih]
    by_cases here : rid = place
    · subst here
      cases stored : db.records rid <;> cases type <;>
        simp [commitOperation, stored]
    · rw [commit_operation_frame db commitXid here]
      cases type <;> simp [here]

theorem rollback_rest_records (db : Db) (rest : List Operation) (rid : Rid) :
    (rest.foldl rollbackOperation db).records rid =
      if ⟨.insert, rid⟩ ∈ rest then none
      else (db.records rid).map fun record =>
        { record with endXid := if ⟨.delete, rid⟩ ∈ rest then maxTrxId else record.endXid } := by
  induction rest generalizing db with
  | nil => simp
  | cons operation rest ih =>
    obtain ⟨type, place⟩ := operation
    rw [foldl_cons, ih]
    by_cases here : rid = place
    · subst here
      cases type <;> simp [rollbackOperation, Option.map_map, comp_def]
    · rw [rollback_operation_frame db here]
      cases type <;> simp [here]

/-- The record after the commit of the transaction `trxId`. -/
def Record.settle (record : Record) (trxId commitXid : Int) (deleted : Bool) : Record where
  beginXid := if record.beginXid = -trxId then commitXid else record.beginXid
  endXid := if record.endXid = -trxId ∨ deleted = true then commitXid else record.endXid

theorem visit_of_deletable {trxId : Int} (deletable : Deletable db trxId rid)
    (stored : db.records rid = some record) :
    visitRecord trxId record .readWrite = .success := by
  obtain ⟨found, same, visited⟩ := deletable
  obtain rfl : found = record := some.inj (same.symm.trans stored)
  exact visited

theorem settle_stamped {current trxId commitXid : Int} {deleted : Bool}
    (stamped : Stamped current record) (running : 0 < trxId) (low : 0 ≤ current)
    (later : current < commitXid)
    (visited : deleted = true → visitRecord trxId record .readWrite = .success) :
    Stamped commitXid (record.settle trxId commitXid deleted) := by
  obtain ⟨begun, ended, loaded, own⟩ := stamped
  have positive : 0 < maxTrxId := by decide
  unfold Record.settle
  cases deleted with
  | false =>
    constructor <;> simp only [Bool.false_eq_true, or_false] <;> omega
  | true =>
    have admitted := visit_read_write_success (visited rfl)
    constructor <;> simp only [or_true, if_true] <;> omega

theorem settle_lasts_iff {current trxId commitXid : Int} {deleted : Bool}
    (stamped : Stamped current record) (running : 0 < trxId) (low : 0 ≤ current)
    (later : current < commitXid) (below : commitXid < maxTrxId)
    (visited : deleted = true → visitRecord trxId record .readWrite = .success) :
    ((record.settle trxId commitXid deleted).lasts ↔ record.lasts) ↔
      if deleted = true then record.beginXid ≤ 0 ∨ record.endXid ≠ maxTrxId
      else ¬Uncommitted trxId record := by
  obtain ⟨begun, ended, loaded, own⟩ := stamped
  unfold Record.settle Record.lasts Uncommitted
  cases deleted with
  | false =>
    simp only [Bool.false_eq_true, or_false, if_false]
    split_ifs <;> omega
  | true =>
    have admitted := visit_read_write_success (visited rfl)
    simp only [or_true, if_true]
    split_ifs <;> omega

@[simp] theorem commit_all_current (db : Db) (handle : Nat) :
    (db.commitAll handle).currentTrxId = nextTrxId db.currentTrxId := by
  simp [commitAll, rest_current]

@[simp] theorem commit_all_trx (db : Db) (handle : Nat) : (db.commitAll handle).trxs handle = {} := by
  simp [commitAll]

section

variable (settled : Settled db handle) (room : db.currentTrxId + 3 < maxTrxId)
  (into : DeletesInto (db.startIfNeed handle) handle (db.sessionId handle) deleted opened)
include settled room into

theorem commit_all_records (rid : Rid) :
    (opened.commitAll handle).records rid = (db.records rid).map fun record =>
      record.settle (db.sessionId handle) (opened.currentTrxId + 1) (decide (rid ∈ deleted)) := by
  have drawn := session_id_drawn settled (by omega)
  have next : nextTrxId opened.currentTrxId = opened.currentTrxId + 1 := by
    rw [into.current]
    exact next_trx_id_eq (by have := settled.low; omega) (by omega)
  have operations : (opened.trxs handle).operations =
      (db.trxs handle).operations ++ deleted.map (⟨.delete, ·⟩) := by
    rw [into.trx, start_if_need_session settled]
  simp only [commitAll, setTrx_records, append_records, commit_rest_records, operations, next,
    into.records, start_if_need_records]
  cases stored : db.records rid with
  | none => simp
  | some record =>
    have inserts := mem_operations_iff settled (by omega) stored .insert
    have deletes := mem_operations_iff settled (by omega) stored .delete
    simp only [mem_append, inserts, deletes, Record.stamp]
    by_cases here : rid ∈ deleted <;> simp [Record.settle, here]

theorem same_rows_committed_iff
    (deletable : ∀ rid ∈ deleted, Deletable db (db.sessionId handle) rid) :
    SameRows db (opened.commitAll handle) handle ↔
      Fate.committed.Keeps db (db.sessionId handle) deleted := by
  have drawn := session_id_drawn settled (by omega)
  have low := settled.low
  have current := into.current
  have next : (opened.commitAll handle).currentTrxId = opened.currentTrxId + 1 := by
    rw [commit_all_current]
    exact next_trx_id_eq (by omega) (by omega)
  have records := commit_all_records settled room into
  have visited : ∀ rid record, db.records rid = some record → decide (rid ∈ deleted) = true →
      visitRecord (db.sessionId handle) record .readWrite = .success := fun rid record stored member =>
    visit_of_deletable (deletable rid (of_decide_eq_true member)) stored
  have drawnAfter : Drawn (opened.commitAll handle) := by
    constructor
    · intro rid written storedAfter
      rw [records] at storedAfter
      obtain ⟨record, stored, rfl⟩ := map_eq_some_iff.mp storedAfter
      rw [next]
      exact settle_stamped (settled.stamped rid record stored) drawn.1 low (by omega)
        (visited rid record stored)
    · intro type rid written storedAfter
      rw [records] at storedAfter
      obtain ⟨record, stored, rfl⟩ := map_eq_some_iff.mp storedAfter
      have bound := settled.bound type rid record stored
      rw [next]
      cases type <;> simp only [Record.stamp, Record.settle] at bound ⊢ <;> split <;> omega
  rw [same_rows_ended_iff settled.toDrawn drawnAfter (by omega) (by omega) (by simp)]
  refine forall_congr' fun rid => ?_
  rw [lasting, lasting, records]
  cases stored : db.records rid with
  | none => simp
  | some record =>
    have lasts := settle_lasts_iff (settled.stamped rid record stored) drawn.1 low
      (by omega : db.currentTrxId < opened.currentTrxId + 1) (by omega) (visited rid record stored)
    simp only [Option.map_some, any_some, decide_eq_decide, lasts, decide_eq_true_eq]
    simp

end

end Endings

section Statements

variable {db opened after : Db} {handle : Nat} {rid : Rid} {record : Record} {deleted : List Rid}
  {faults : Faults} {protocol : Protocol}

theorem same_rows_of_records {before : Db} (handle : Nat) (same : after.records = before.records) :
    SameRows before after handle := by
  intro trxId rid _
  simp only [visibleTo, same]

section

variable (settled : Settled db handle) (room : db.currentTrxId + 3 < maxTrxId)
include settled room

section

variable (into : DeletesInto (db.startIfNeed handle) handle (db.sessionId handle) deleted opened)
include into

theorem same_rows_open_iff
    (deletable : ∀ rid ∈ deleted, Deletable db (db.sessionId handle) rid) :
    SameRows db opened handle ↔ Fate.leftOpen.Keeps db (db.sessionId handle) deleted := by
  have drawn := session_id_drawn settled (by omega)
  have trx : (opened.trxs handle).started = true ∧
      (opened.trxs handle).trxId = db.sessionId handle := by
    rw [into.trx, start_if_need_session settled]
    exact ⟨rfl, rfl⟩
  constructor
  · intro same rid member record stored
    have seen := same (db.sessionId handle) rid (.inr ⟨trx.1, trx.2.symm⟩)
    have admitted := visit_read_write_success (visit_of_deletable (deletable rid member) stored)
    have found : db.records rid = some record := stored
    by_contra other
    -- the session saw the record and does not see it any more
    have before : visitRecord (db.sessionId handle) record .readOnly = .success := by
      unfold visitRecord
      split_ifs <;> grind
    have now : visitRecord (db.sessionId handle)
        { record with endXid := -db.sessionId handle } .readOnly ≠ .success := by
      unfold visitRecord
      split_ifs <;> grind
    simp [visibleTo, into.records, member, found, before, now] at seen
  · intro own trxId rid later
    unfold visibleTo
    rw [into.records, start_if_need_records]
    by_cases member : rid ∈ deleted
    · rw [if_pos member]
      cases stored : db.records rid with
      | none => rfl
      | some record =>
        have begun := own rid member record stored
        have hides : ∀ record : Record, record.beginXid = -db.sessionId handle →
            (visitRecord trxId record .readOnly == .success) = decide (db.sessionId handle = trxId) := by
          intro record begun
          unfold visitRecord
          rw [if_neg (by omega), if_pos (by omega), begun, Int.neg_neg]
          split <;> simp_all
        rw [Option.map_some]
        exact (hides ⟨record.beginXid, -db.sessionId handle⟩ begun).trans (hides record begun).symm
    · rw [if_neg member]

end

theorem same_rows_rolled_back
    (into : DeletesInto (db.startIfNeed handle) handle (db.sessionId handle) [] opened) :
    SameRows db (opened.rollbackAll handle) handle := by
  have drawn := session_id_drawn settled (by omega)
  have current := into.current
  have operations : (opened.trxs handle).operations = (db.trxs handle).operations := by
    rw [into.trx, start_if_need_session settled]
    simp
  have kept : opened.records = db.records := by
    funext rid
    simp [into.records]
  have undone : ∀ rid, (opened.rollbackAll handle).records rid =
      (db.records rid).bind fun record =>
        if record.beginXid = -db.sessionId handle then none
        else some ⟨record.beginXid,
          if record.endXid = -db.sessionId handle then maxTrxId else record.endXid⟩ := by
    intro rid
    simp only [rollbackAll, setTrx_records, append_records, rollback_rest_records, operations,
      mem_reverse, kept]
    cases stored : db.records rid with
    | none => simp
    | some record =>
      have inserts := mem_operations_iff settled (by omega) stored .insert
      have deletes := mem_operations_iff settled (by omega) stored .delete
      simp only [inserts, deletes, Record.stamp]
      rfl
  have unchanged : (opened.rollbackAll handle).currentTrxId = opened.currentTrxId :=
    rest_current rollback_operation_current opened (opened.trxs handle).operations.reverse
  intro trxId rid later
  obtain ⟨new, below⟩ | ⟨started, -⟩ := later
  · rw [unchanged] at new
    unfold visibleTo
    rw [undone]
    cases stored : db.records rid with
    | none => rfl
    | some record =>
      have own := (settled.stamped rid record stored).own
      have begun := (settled.stamped rid record stored).begun
      rw [bind_some]
      split_ifs with inserted deletes
      · have hidden : visitRecord trxId record .readOnly = .recordInvisible := by
          unfold visitRecord
          rw [if_neg (by omega), if_pos (by omega), if_neg (by omega)]
        change false = (visitRecord trxId record .readOnly == .success)
        rw [hidden]
        rfl
      · -- an open delete hides the row from its own transaction only
        have seen : ∀ ended : Int, ended = maxTrxId ∨ ended = -db.sessionId handle →
            visitRecord trxId ⟨record.beginXid, ended⟩ .readOnly = .success := by
          intro ended either
          unfold visitRecord
          dsimp only
          split_ifs <;> first | rfl | omega
        have before : visitRecord trxId record .readOnly = .success := seen _ (.inr deletes)
        change (visitRecord trxId ⟨record.beginXid, maxTrxId⟩ .readOnly == .success) =
          (visitRecord trxId record .readOnly == .success)
        rw [seen _ (.inl rfl), before]
      · rfl
  · simp [rollbackAll] at started

theorem insert_is_seen {rid : Rid} (free : db.records rid = none)
    (ends : after = ((db.startIfNeed handle).insertRecord handle rid).commitAll handle ∨
      after = (db.startIfNeed handle).insertRecord handle rid) :
    ¬SameRows db after handle := by
  have drawn := session_id_drawn settled (by omega)
  have trx := start_if_need_session settled
  have low := settled.low
  intro same
  rcases ends with rfl | rfl
  · have next := next_trx_id_eq (by omega : 0 ≤ (db.startIfNeed handle).currentTrxId) (by omega)
    have untouched : ⟨.delete, rid⟩ ∉ (db.trxs handle).operations := by
      simp [settled.operations, free]
    have stored : (((db.startIfNeed handle).insertRecord handle rid).commitAll handle).records rid =
        some ⟨(db.startIfNeed handle).currentTrxId + 1, maxTrxId⟩ := by
      simp only [commitAll, setTrx_records, append_records, commit_rest_records]
      simp [insertRecord, trx, next, untouched]
    have later : LaterId (((db.startIfNeed handle).insertRecord handle rid).commitAll handle)
        handle ((db.startIfNeed handle).currentTrxId + 2) := by
      refine .inl ⟨?_, by omega⟩
      simp only [commit_all_current, insertRecord, setTrx_currentTrxId, append_currentTrxId,
        setRecord_currentTrxId, next]
      omega
    have seen := same _ rid later
    simp only [visibleTo, stored, free, visitRecord] at seen
    rw [if_pos ⟨by omega, by decide⟩, if_pos ⟨by omega, by omega⟩] at seen
    simp at seen
  · have later : LaterId ((db.startIfNeed handle).insertRecord handle rid) handle
        (db.sessionId handle) := by
      refine .inr ?_
      simp [insertRecord, trx]
    have seen := same _ rid later
    have stored : ((db.startIfNeed handle).insertRecord handle rid).records rid =
        some ⟨-db.sessionId handle, maxTrxId⟩ := by
      simp [insertRecord, trx]
    simp only [visibleTo, stored, free, visitRecord] at seen
    rw [if_neg (by omega), if_pos (by omega), if_pos (by omega)] at seen
    simp at seen

end

theorem execute_insert (db : Db) (handle : Nat) (protocol : Protocol) (faults : Faults) (rid : Rid) :
    let opened := ((db.startIfNeed handle).openOperator handle faults (.insert rid)).2
    (db.execute protocol handle faults (.insert rid)).db = opened.commitAll handle ∨
      (db.execute protocol handle faults (.insert rid)).db = opened := by
  simp only [execute, produceRows, closeResult, closeFails, Bool.false_eq_true, if_false]
  split <;> simp_all

theorem load_records_kept (fault : Nat → Bool) (i : Nat) (rids : List Rid)
    (stored : db.records rid = some record) :
    (db.loadRecords fault i rids).2.records rid = some record := by
  induction rids generalizing db i with
  | nil => exact stored
  | cons place rest ih =>
    simp only [loadRecords]
    split
    · exact stored
    · rename_i fits
      apply ih
      rw [loaded_slots, if_neg, stored]
      rintro rfl
      simp [stored] at fits

theorem load_records_trxs (fault : Nat → Bool) (i : Nat) (rids : List Rid) (db : Db) :
    (db.loadRecords fault i rids).2.currentTrxId = db.currentTrxId ∧
      (db.loadRecords fault i rids).2.trxs = db.trxs := by
  induction rids generalizing db i with
  | nil => exact ⟨rfl, rfl⟩
  | cons place rest ih =>
    simp only [loadRecords]
    split
    · exact ⟨rfl, rfl⟩
    · exact ih (i + 1) (db.loadRecord place)

theorem load_is_seen (room : db.currentTrxId + 3 < maxTrxId) (free : db.records rid = none)
    (fault : Nat → Bool) (i : Nat) (rest : List Rid) :
    ¬SameRows db ((db.loadRecord rid).loadRecords fault i rest).2 handle := by
  intro same
  have stored : ((db.loadRecord rid).loadRecords fault i rest).2.records rid =
      some loadedRecord := by
    apply load_records_kept
    rw [loaded_slots, if_pos rfl]
  have current := (load_records_trxs fault i rest (db.loadRecord rid)).1
  have later : LaterId ((db.loadRecord rid).loadRecords fault i rest).2 handle
      (db.currentTrxId + 1) := by
    refine .inl ⟨?_, by omega⟩
    rw [current]
    exact Int.lt_succ _
  have seen := same (db.currentTrxId + 1) rid later
  simp only [visibleTo, stored, free] at seen
  cases seen

end Statements

/-- Every statement leaves the session between statements. -/
theorem between_after_execute {db : Db} {handle : Nat} {protocol : Protocol} (faults : Faults)
    (command : Command) (settled : Settled db handle)
    (between : BetweenStatements protocol db handle) :
    BetweenStatements protocol (db.execute protocol handle faults command).db handle := by
  have ended : ∀ after : Db, after.trxs handle = {} → BetweenStatements protocol after handle :=
    fun after fresh => ⟨by rw [fresh], fun _ => by rw [fresh]⟩
  have trx := start_if_need_session settled
  by_cases reads : command.reads
  · obtain ⟨opened, into, ends⟩ :=
      @execute_spec db handle faults protocol settled command reads
    cases kind : fate protocol faults command (command.opens db (db.sessionId handle) faults) with
    | leftOpen =>
      rw [kind] at ends
      have structured : protocol ≠ .plain := by
        rintro rfl
        unfold fate at kind
        split at kind
        · simp_all
        · cases kind
        · split at kind <;> cases kind
      exact ⟨by rw [ends, into.trx, trx], fun plain => absurd plain structured⟩
    | committed =>
      rw [kind] at ends
      exact ended _ (by rw [ends, commit_all_trx])
    | undone =>
      rw [kind] at ends
      rcases ends.2 with rolled | ⟨-, dropped⟩
      · exact ended _ (by simp [rolled, rollbackAll])
      · exact ended _ (by simp [dropped])
  · cases command with
    | query | update | delete => exact absurd rfl reads
    | load rids =>
      have same : (db.execute protocol handle faults (.load rids)).db.trxs = db.trxs :=
        (load_records_trxs faults.record 0 rids db).2
      exact ⟨by rw [same]; exact between.settled, by rw [same]; exact between.ended⟩
    | insert rid =>
      cases protocol with
      | plain =>
        refine ended _ ?_
        simp only [execute, produceRows, closeResult, closeFails, Bool.false_eq_true, if_false]
        split <;> simp_all
      | structured =>
        refine ⟨?_, by simp⟩
        rcases execute_insert db handle .structured faults rid with committed | opened
        · rw [committed, commit_all_trx]
        · rw [opened, openOperator]
          split <;> simp [trx, insertRecord]

def noFaults : Faults where
  prepare := false
  insertLog := false
  record := fun _ => false
  rows := none
  close := false
  commitLog := false

def firstRow : Rid := ⟨1, 1, 0⟩

def secondRow : Rid := ⟨1, 1, 1⟩

def ownRow : Rid := ⟨1, 1, 2⟩

/-- Two committed rows, the second deleted by a running transaction, and a session whose open
transaction has inserted a third one. -/
def secondRowLocked : List LoadAction :=
  [.act (.startIfNeed 0), .act (.insertRecord 0 firstRow), .act (.insertRecord 0 secondRow),
    .act (.commit 0), .act (.commitNext 0), .act (.commitNext 0), .act (.commitEnd 0),
    .act (.startIfNeed 1), .act (.deleteRecord 1 secondRow), .act (.startIfNeed 3),
    .act (.insertRecord 3 ownRow)]

theorem second_row_locked_runs :
    (run loadStep IdsLast Loading.empty secondRowLocked).isSome = true := by
  decide +kernel

def secondRowState : Loading :=
  (run loadStep IdsLast Loading.empty secondRowLocked).get second_row_locked_runs

end CsuDbms.MvccTrxModel
