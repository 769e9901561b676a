import CsuDbms.HeapIndexModel

/-!
# The assertions of the transaction layer

`ASSERT` is empty in a release build; here each call is paired with what the assertions on its way
check. They hold as long as a transaction is ended only after it was started, deletes a record at
most once, and no insert into a table with an index is rolled back.

The assertion on the number of hidden columns holds for every table that the kit's columns were
added to, and appending to the log only fails for a payload that is too large; neither has a state
here.
-/

namespace CsuDbms.HeapIndexModel

open MvccTrxModel TransitionSystem List Option Function Heap

inductive MvccCall where
  | trx (action : Action)
  | insertRecord (handle : Nat) (rid : Rid) (columns : Nat → List UInt8)
  | rollbackNext (handle : Nat) (garbage : Nat → Key)
  | createIndex (handle : Nat) (table : Int) (column : Column)

def MvccCall.heapAction : MvccCall → HeapAction
  | .trx action => .trx action
  | .insertRecord handle rid columns => .insertRecord handle rid columns
  | .rollbackNext handle garbage => .rollbackNext handle garbage
  | .createIndex handle table column => .createIndex (some handle) table column

def mvccStep (heap : Heap) (call : MvccCall) : Option Heap := heapStep heap call.heapAction

def MarkedBy (db : Db) (trxId : Int) (operation : Operation) : Prop :=
  ∃ record, db.records operation.rid = some record ∧ record.stamp operation.type = -trxId

/-- What the call asserts. A rollback deletes an inserted record through a `Record` without
data, which every index of the table would read. -/
def AssertionsHold (heap : Heap) : MvccCall → Prop
  | .trx (.startIfNeed handle) =>
    (heap.db.trxs handle).started = false → (heap.db.trxs handle).operations = []
  | .trx (.deleteRecord handle rid) =>
    (heap.db.deleteRecord handle rid).1 = .success → 0 < (heap.db.trxs handle).trxId
  | .trx (.commitNext handle) => ∀ commitXid operation rest,
      (heap.db.trxs handle).endLoop = .commit commitXid (operation :: rest) →
        MarkedBy heap.db (heap.db.trxs handle).trxId operation
  | .trx (.commitEnd handle) => ∀ commitXid,
      (heap.db.trxs handle).endLoop = .commit commitXid [] →
        0 < (heap.db.trxs handle).trxId ∧ (heap.db.trxs handle).trxId < commitXid
  | .trx (.rollbackEnd handle) => 0 < (heap.db.trxs handle).trxId
  | .insertRecord handle _ _ => 0 < (heap.db.trxs handle).trxId
  | .rollbackNext handle _ => ∀ operation rest,
      (heap.db.trxs handle).endLoop = .rollback (operation :: rest) →
        match operation.type with
        | .insert => (heap.db.records operation.rid).isSome = true ∧
            (heap.indexes operation.rid.tableId).isEmpty = true
        | .delete => MarkedBy heap.db (heap.db.trxs handle).trxId operation
  | _ => True

/-- What concerns the transactions: only a started one is ended, the counter has room, and a
transaction deletes a record at most once. -/
def SafeAction (db : Db) : Action → Prop
  | .startIfNeed _ => db.currentTrxId + 1 < maxTrxId
  | .commit handle => (db.trxs handle).started = true ∧ db.currentTrxId + 1 < maxTrxId
  | .rollback handle => (db.trxs handle).started = true
  | .deleteRecord handle rid =>
    ∀ record ∈ db.records rid, record.endXid ≠ -(db.trxs handle).trxId
  | _ => True

instance (db : Db) (action : Action) : Decidable (SafeAction db action) := by
  rcases action <;> dsimp only [SafeAction] <;> infer_instance

def Unindexed (heap : Heap) (operations : List Operation) : Prop :=
  ∀ operation ∈ operations, operation.type = .insert →
    (heap.indexes operation.rid.tableId).isEmpty = true

instance (heap : Heap) (operations : List Operation) : Decidable (Unindexed heap operations) :=
  inferInstanceAs (Decidable (∀ operation ∈ operations, _ → _))

def RollsBackUnindexed (heap : Heap) : Action → Prop
  | .rollback handle => Unindexed heap (heap.db.trxs handle).operations
  | _ => True

instance (heap : Heap) (action : Action) : Decidable (RollsBackUnindexed heap action) := by
  rcases action <;> dsimp only [RollsBackUnindexed] <;> infer_instance

/-- No insert into an indexed table is rolled back, nor does the table of an insert that is
being rolled back get an index. -/
def SafeCall (heap : Heap) : MvccCall → Prop
  | .trx action => SafeAction heap.db action ∧ RollsBackUnindexed heap action
  | .createIndex _ table _ => ∀ handle rest, (heap.db.trxs handle).endLoop = .rollback rest →
      ∀ operation ∈ rest, operation.type = .insert → operation.rid.tableId ≠ table
  | _ => True

structure DeletesShown (records : Rid → Option Record) (trx : MvccTrx) : Prop where
  marked : ∀ rid, ⟨.delete, rid⟩ ∈ trx.pending →
    ∃ record, records rid = some record ∧ record.endXid = -trx.trxId
  once : ∀ rid, trx.pending.count ⟨.delete, rid⟩ ≤ 1

variable {records next : Rid → Option Record} {trx after : MvccTrx}

theorem deletes_shown_idle (idle : trx.pending = []) : DeletesShown records trx where
  marked := by simp [idle]
  once := by simp [idle]

theorem deletes_shown_frame (shown : DeletesShown records trx) (id : after.trxId = trx.trxId)
    (counts : ∀ rid, after.pending.count ⟨.delete, rid⟩ ≤ trx.pending.count ⟨.delete, rid⟩)
    (kept : ∀ rid, ⟨.delete, rid⟩ ∈ after.pending → ∀ record, records rid = some record →
      ∃ now, next rid = some now ∧ now.endXid = record.endXid) : DeletesShown next after where
  marked := by
    intro rid ahead
    have before : ⟨.delete, rid⟩ ∈ trx.pending :=
      count_pos_iff.mp ((count_pos_iff.mpr ahead).trans_le (counts rid))
    obtain ⟨record, stored, stamped⟩ := shown.marked rid before
    obtain ⟨now, found, same⟩ := kept rid ahead record stored
    exact ⟨now, found, by rw [same, stamped, id]⟩
  once := fun rid => (counts rid).trans (shown.once rid)

theorem deletes_shown_append {rid : Rid} {record : Record} (shown : DeletesShown records trx)
    (id : after.trxId = trx.trxId) (pending : after.pending = trx.pending ++ [⟨.delete, rid⟩])
    (frame : ∀ place, place ≠ rid → next place = records place)
    (stored : records rid = some record) (undeleted : record.endXid ≠ -trx.trxId)
    (written : ∃ now, next rid = some now ∧ now.endXid = -trx.trxId) :
    DeletesShown next after := by
  have absent : ⟨.delete, rid⟩ ∉ trx.pending := by
    intro ahead
    obtain ⟨found, same, stamped⟩ := shown.marked rid ahead
    obtain rfl : found = record := some.inj (same.symm.trans stored)
    exact undeleted stamped
  constructor
  · intro place ahead
    rw [id]
    by_cases here : place = rid
    · exact here ▸ written
    · have before : ⟨.delete, place⟩ ∈ trx.pending := by
        rw [pending] at ahead
        simpa [here] using ahead
      rw [frame place here]
      exact shown.marked place before
  · intro place
    rw [pending, count_append]
    by_cases here : place = rid
    · subst here
      simp [count_eq_zero_of_not_mem absent]
    · have other : count (⟨.delete, place⟩ : Operation) [⟨.delete, rid⟩] = 0 :=
        count_eq_zero_of_not_mem (by simpa using here)
      rw [other, Nat.add_zero]
      exact shown.once place

variable {db : Db} {handle : Nat} {rest : List Operation}

theorem not_ahead_again {rid : Rid} (shown : DeletesShown records trx)
    (pending : trx.pending = ⟨.delete, rid⟩ :: rest) : ⟨.delete, rid⟩ ∉ rest := by
  intro again
  have once := shown.once rid
  rw [pending, count_cons_self] at once
  have positive := count_pos_iff.mpr again
  omega

theorem deletes_shown_rolled_back {operation : Operation} (ordered : PendingShown records trx)
    (shown : DeletesShown records trx) (loop : trx.endLoop = .rollback (operation :: rest))
    (frame : ∀ place, place ≠ operation.rid → next place = records place) :
    DeletesShown next { trx with endLoop := .rollback rest } := by
  have pending := pending_rolling_back loop
  refine deletes_shown_frame shown rfl (fun place => ?_) fun place ahead record stored => ?_
  · rw [pending]
    exact count_le_count_cons
  · have there : place ≠ operation.rid := by
      obtain ⟨type, rid⟩ := operation
      cases type with
      | insert =>
        -- What is behind the insert in the reversed list came before it, so it is elsewhere.
        have ordered := ordered.ordered
        simp only [MvccTrx.ordered, loop] at ordered
        exact rel_of_pairwise_cons ordered ahead rfl
      | delete =>
        rintro rfl
        exact not_ahead_again shown pending ahead
    exact ⟨record, (frame place there).trans stored, rfl⟩

variable {action : Action}

theorem deletes_shown_step {state final : Tracked} (accounted : Accounted state)
    (shown : ∀ handle, DeletesShown state.db.records (state.db.trxs handle))
    (met : SafeAction state.db action) (taken : trackedStep state action = some final) :
    ∀ handle, DeletesShown final.db.records (final.db.trxs handle) := by
  obtain ⟨ids, _, consistent⟩ := accounted
  refine objects_step ids consistent taken (fun shown same => ?_) shown ?_
  · refine deletes_shown_frame shown rfl (fun _ => le_rfl) fun rid ahead record stored => ?_
    exact ⟨record, (same rid ⟨_, ahead⟩).trans stored, rfl⟩
  cases transition_of_step taken with
  | keep => exact ⟨_, (update_eq_self ..).symm, shown _⟩
  | @start handle looping unstarted =>
    have idle := ((ids.trx handle).unstarted (idle_of_unstarted ids unstarted looping)).2
    exact ⟨_, rfl, deletes_shown_idle idle⟩
  | @insert handle rid started free =>
    have looping := ((ids.trx handle).startedLoop started).1
    refine ⟨_, rfl, deletes_shown_frame (shown handle) rfl (fun place => ?_) ?_⟩
    · rw [pending_append looping, count_append]
      simp
    · intro place ahead record stored
      rw [pending_append looping] at ahead
      have before : ⟨.delete, place⟩ ∈ (state.db.trxs handle).pending := by
        simpa using ahead
      refine ⟨record, (update_of_ne (fun here => ?_) _ _).trans stored, rfl⟩
      exact untouched_of_free consistent free handle ⟨_, here ▸ before⟩
  | @delete handle rid record started stored visited =>
    have looping := ((ids.trx handle).startedLoop started).1
    refine ⟨_, congrArg (update · handle _) (update_record_trxs ..), ?_⟩
    refine deletes_shown_append (shown handle) rfl (pending_append looping _) ?_ stored
      (met record stored) ?_
    · intro place there
      simp [there]
    · simp [stored]
  | @commit handle looping =>
    refine ⟨_, rfl, deletes_shown_frame (shown handle) rfl (fun rid => ?_) fun _ _ record stored =>
      ⟨record, stored, rfl⟩⟩
    exact (congrArg (count _) (pending_running looping)).ge
  | @commitNext handle commitXid operation rest loop =>
    have pending := pending_committing loop
    have frame := @commit_operation_frame operation state.db commitXid
    refine ⟨_, congrArg (update · handle _) (commit_operation_trxs ..),
      deletes_shown_frame (shown handle) rfl (fun rid => ?_) ?_⟩
    · rw [pending]
      exact count_le_count_cons
    · intro rid ahead record stored
      obtain ⟨type, place⟩ := operation
      cases type with
      | insert =>
        by_cases here : rid = place
        · subst here
          exact ⟨{ record with beginXid := commitXid }, by simp [Db.commitOperation, stored], rfl⟩
        · exact ⟨record, (frame here).trans stored, rfl⟩
      | delete =>
        have there : rid ≠ place := fun here =>
          not_ahead_again (shown handle) pending (here ▸ ahead)
        exact ⟨record, (frame there).trans stored, rfl⟩
  | @rollback handle looping =>
    refine ⟨_, rfl, deletes_shown_frame (shown handle) rfl (fun rid => ?_) fun _ _ record stored =>
      ⟨record, stored, rfl⟩⟩
    exact ((reverse_perm _).count_eq _).trans_le
      (congrArg (count _) (pending_running looping)).ge
  | rollbackInsert loop | rollbackDelete loop =>
    refine ⟨_, congrArg (update · _ _) (rollback_operation_trxs ..),
      deletes_shown_rolled_back (consistent.trx _) (shown _) loop ?_⟩
    exact fun _ => rollback_operation_frame state.db
  | commitEnd | rollbackEnd | destroy => exact ⟨_, rfl, deletes_shown_idle rfl⟩

structure TrxGuarded (db : Db) : Prop where
  accounted : ∃ history, Accounted ⟨db, history⟩
  deletes : ∀ handle, DeletesShown db.records (db.trxs handle)
  looping : ∀ handle, (db.trxs handle).endLoop ≠ .none → 0 < (db.trxs handle).trxId

theorem counter_fits_of_safe (met : SafeAction db action) :
    CounterFits db action := by
  cases action with
  | startIfNeed => exact met
  | commit => exact met.2
  | insertRecord | deleteRecord | commitNext | commitEnd | rollback | rollbackNext | rollbackEnd
  | destroyTrx => trivial

theorem looping_step {state final : Tracked} (ids : IdsConsistent state)
    (looping : ∀ handle, (state.db.trxs handle).endLoop ≠ .none →
      0 < (state.db.trxs handle).trxId)
    (met : SafeAction state.db action) (taken : trackedStep state action = some final) :
    ∀ handle, (final.db.trxs handle).endLoop ≠ .none → 0 < (final.db.trxs handle).trxId := by
  intro handle
  rcases object_step taken handle with same | ⟨rfl, object⟩
  · rw [same]
    exact looping handle
  · generalize final.db.trxs action.handle = trx at object ⊢
    cases object with
    | start idle => exact fun ended => absurd idle ended
    | operate started => exact fun _ => ((ids.trx _).startedLoop started).2
    | commit => exact fun _ => ((ids.trx _).startedLoop met.1).2
    | rollback => exact fun _ => ((ids.trx _).startedLoop met).2
    | commitNext loop | rollbackNext loop => exact fun _ => looping _ (by simp [loop])
    | drop => exact fun ended => absurd rfl ended

theorem trx_guarded_step (guarded : TrxGuarded db) (met : SafeAction db action)
    (taken : step db action = some after_db) :
    TrxGuarded after_db := by
  obtain ⟨⟨history, accounted⟩, deletes, looping⟩ := guarded
  have tracked : trackedStep ⟨db, history⟩ action =
      some ⟨after_db, history.advance db action⟩ := by
    simp [trackedStep, taken]
  exact
    { accounted := ⟨_, accounted_step accounted (counter_fits_of_safe met) tracked⟩
      deletes := deletes_shown_step accounted deletes met tracked
      looping := looping_step accounted.ids looping met tracked }

theorem trx_guarded_append (guarded : TrxGuarded db) (entries : List LogEntry) :
    TrxGuarded (db.append entries) := by
  obtain ⟨⟨history, ids, stamps, pending⟩, deletes, looping⟩ := guarded
  refine ⟨⟨history, ?_, ?_, ?_⟩, deletes, looping⟩
  · exact ⟨ids.counterLow, ids.counterHigh, ids.trx, ids.idUnique, ids.commitBound,
      ids.abortedBound⟩
  · exact ⟨stamps.1, stamps.2⟩
  · exact ⟨pending.trx, pending.exclusive⟩

def MvccCall.action? : MvccCall → Option Action
  | .trx action => some action
  | .insertRecord handle rid _ => some (.insertRecord handle rid)
  | .rollbackNext handle _ => some (.rollbackNext handle)
  | .createIndex .. => none

variable {heap last : Heap} {call : MvccCall}

theorem call_database (taken : mvccStep heap call = some last) :
    (∃ action, call.action? = some action ∧ step heap.db action = some last.db) ∨
      ∃ entries, last.db = heap.db.append entries := by
  cases call with
  | trx action =>
    obtain ⟨_, stepped⟩ := ite_none_right_eq_some.mp taken
    obtain ⟨db, moved, rfl⟩ := map_eq_some_iff.mp stepped
    exact .inl ⟨action, rfl, moved⟩
  | insertRecord handle rid columns =>
    obtain ⟨db, moved, rfl⟩ := map_eq_some_iff.mp taken
    unfold insertRecord
    split
    · exact .inl ⟨_, rfl, moved⟩
    · exact .inr ⟨_, rfl⟩
  | rollbackNext handle garbage =>
    obtain ⟨db, moved, rfl⟩ := map_eq_some_iff.mp taken
    refine .inl ⟨_, rfl, moved.trans ?_⟩
    cases nextUndoneInsert heap.db handle <;> rfl
  | createIndex handle table column =>
    refine .inr ⟨[], ?_⟩
    rw [← some.inj taken]
    simp only [createIndex]
    split <;> simp [Db.append]

theorem stays_unindexed {table : Int} (taken : mvccStep heap call = some last)
    (other : ∀ handle column, call ≠ .createIndex handle table column)
    (none : (heap.indexes table).isEmpty = true) : (last.indexes table).isEmpty = true := by
  have empty : heap.indexes table = [] := isEmpty_iff.mp none
  have replaced : ∀ {place : Int} {indexes : List Index},
      (place = table → indexes = []) →
        (update heap.indexes place indexes table).isEmpty = true := by
    intro place indexes here
    by_cases same : place = table
    · subst same
      simp [here rfl]
    · rw [update_of_ne (Ne.symm same)]
      exact none
  cases call with
  | trx action =>
    obtain ⟨_, stepped⟩ := ite_none_right_eq_some.mp taken
    obtain ⟨db, _, rfl⟩ := map_eq_some_iff.mp stepped
    exact none
  | insertRecord handle rid columns =>
    obtain ⟨db, _, rfl⟩ := map_eq_some_iff.mp taken
    unfold insertRecord
    split
    next written done =>
      refine replaced fun here => ?_
      rw [here, empty] at done
      exact (congrArg Prod.snd done).symm
    next written refused =>
      refine replaced fun here => ?_
      rw [here, empty] at refused
      cases refused
  | rollbackNext handle garbage =>
    obtain ⟨db, _, rfl⟩ := map_eq_some_iff.mp taken
    cases nextUndoneInsert heap.db handle with
    | none => exact none
    | some rid =>
      refine replaced fun here => ?_
      rw [here, empty]
      rfl
  | createIndex handle place column =>
    have there : place ≠ table := fun here => other handle column (here ▸ rfl)
    rw [← some.inj taken]
    simp only [createIndex]
    split
    · exact none
    · exact replaced fun here => absurd here there

theorem rolling_back_before (taken : step db action = some after_db)
    (loop : (after_db.trxs handle).endLoop = .rollback rest) :
    (action = .rollback handle ∧ rest = (db.trxs handle).operations.reverse) ∨
      ∃ before, (db.trxs handle).endLoop = .rollback before ∧ rest ⊆ before := by
  have tracked : trackedStep ⟨db, .empty⟩ action =
      some ⟨after_db, History.advance .empty db action⟩ := by
    simp [trackedStep, taken]
  rcases object_step tracked handle with same | ⟨rfl, object⟩
  · exact .inr ⟨rest, same ▸ loop, List.Subset.refl _⟩
  · simp only at object
    generalize after_db.trxs action.handle = trx at loop object
    cases object with
    | start | operate => exact .inr ⟨rest, loop, List.Subset.refl _⟩
    | rollback =>
      cases loop
      exact .inl ⟨rfl, rfl⟩
    | rollbackNext before =>
      cases loop
      exact .inr ⟨_, before, subset_cons_self _ _⟩
    | commit | commitNext | drop => cases loop

structure Guarded (heap : Heap) : Prop where
  trxs : TrxGuarded heap.db
  unindexed : ∀ handle rest, (heap.db.trxs handle).endLoop = .rollback rest → Unindexed heap rest

theorem guarded_empty : Guarded empty where
  trxs := ⟨⟨.empty, accounted_empty⟩, fun _ => deletes_shown_idle rfl,
    fun _ ended => absurd rfl ended⟩
  unindexed := nofun

theorem safe_action_of_call (met : SafeCall heap call) (makes : call.action? = some action) :
    SafeAction heap.db action := by
  cases call with
  | trx made =>
    cases makes
    exact met.1
  | insertRecord | rollbackNext =>
    cases makes
    trivial
  | createIndex => cases makes

theorem guarded_step (guarded : Guarded heap)
    (met : SafeCall heap call) (taken : mvccStep heap call = some last) : Guarded last := by
  have keeps : ∀ {operations : List Operation}, Unindexed heap operations →
      (∀ handle table column, call = .createIndex handle table column →
        ∀ operation ∈ operations, operation.type = .insert → operation.rid.tableId ≠ table) →
      Unindexed last operations := by
    intro operations unindexed apart operation member inserted
    refine stays_unindexed taken (fun handle column made => ?_)
      (unindexed operation member inserted)
    exact apart handle _ column made operation member inserted rfl
  have apart : ∀ {acting : Nat} {before : List Operation},
      (heap.db.trxs acting).endLoop = .rollback before →
      ∀ handle table column, call = .createIndex handle table column →
        ∀ operation ∈ before, operation.type = .insert → operation.rid.tableId ≠ table := by
    rintro acting before loop handle table column rfl
    exact met acting before loop
  rcases call_database taken with ⟨action, makes, moved⟩ | ⟨entries, written⟩
  · refine ⟨trx_guarded_step guarded.trxs (safe_action_of_call met makes) moved, ?_⟩
    intro handle rest loop
    rcases rolling_back_before moved loop with ⟨rfl, rfl⟩ | ⟨before, looped, within⟩
    · cases call with
      | trx made =>
        cases makes
        refine keeps (fun operation member => ?_) nofun
        exact met.2 operation (mem_reverse.mp member)
      | insertRecord | rollbackNext | createIndex => cases makes
    · have all := keeps (guarded.unindexed handle before looped) (apart looped)
      exact fun operation member => all operation (within member)
  · refine ⟨written ▸ trx_guarded_append guarded.trxs entries, ?_⟩
    intro handle rest loop
    have looped : (heap.db.trxs handle).endLoop = .rollback rest := by
      rw [written] at loop
      exact loop
    exact keeps (guarded.unindexed handle rest looped) (apart looped)

theorem marked_of_pending {operation : Operation}
    (guarded : TrxGuarded db) (ahead : operation ∈ (db.trxs handle).pending) :
    MarkedBy db (db.trxs handle).trxId operation := by
  obtain ⟨⟨history, accounted⟩, deletes, _⟩ := guarded
  obtain ⟨type, rid⟩ := operation
  cases type with
  | insert => exact (accounted.pending.trx handle).shown .insert rid ahead
  | delete => exact (deletes handle).marked rid ahead

theorem assertions_of_guarded (guarded : Guarded heap)
    (taken : mvccStep heap call = some last) : AssertionsHold heap call := by
  obtain ⟨trxs, unindexed⟩ := guarded
  obtain ⟨history, accounted⟩ := trxs.accounted
  have positive : ∀ handle, (heap.db.trxs handle).started = true →
      0 < (heap.db.trxs handle).trxId :=
    fun handle started => ((accounted.ids.trx handle).startedLoop started).2
  cases call with
  | trx action =>
    obtain ⟨leaves, stepped⟩ := ite_none_right_eq_some.mp taken
    obtain ⟨db, moved, _⟩ := map_eq_some_iff.mp stepped
    cases action with
    | startIfNeed handle =>
      intro unstarted
      obtain ⟨looping, _⟩ := ite_none_right_eq_some.mp moved
      have idle := idle_of_unstarted accounted.ids (by simp [unstarted]) looping
      rw [← pending_running looping]
      exact ((accounted.ids.trx handle).unstarted idle).2
    | deleteRecord handle rid =>
      intro _
      obtain ⟨⟨started, _⟩, _⟩ := ite_none_right_eq_some.mp moved
      exact positive handle started
    | commitNext handle =>
      intro commitXid operation rest loop
      exact marked_of_pending trxs (pending_committing loop ▸ mem_cons_self)
    | commitEnd handle =>
      intro commitXid loop
      have running := trxs.looping handle (by simp [loop])
      have drawn := (accounted.ids.trx handle).committing commitXid [] running loop
      exact ⟨running, (accounted.ids.commitBound _ _ drawn).2.1⟩
    | rollbackEnd handle =>
      obtain ⟨loop, _⟩ := step_rollback_end moved
      exact trxs.looping handle (by simp [loop])
    | insertRecord | rollbackNext => cases leaves
    | commit | rollback | destroyTrx => trivial
  | insertRecord handle rid columns =>
    obtain ⟨db, moved, _⟩ := map_eq_some_iff.mp taken
    obtain ⟨⟨started, _⟩, _⟩ := ite_none_right_eq_some.mp moved
    exact positive handle started
  | rollbackNext handle garbage =>
    intro operation rest loop
    have marked := marked_of_pending trxs (pending_rolling_back loop ▸ mem_cons_self)
    obtain ⟨type, rid⟩ := operation
    cases type with
    | insert =>
      obtain ⟨record, stored, _⟩ := marked
      refine ⟨by simp [stored], ?_⟩
      exact unindexed handle _ loop ⟨.insert, rid⟩ mem_cons_self rfl
    | delete => exact marked
  | createIndex => trivial

theorem trx_call_reaches {action : Action} {db : Db} (safe : SafeCall heap (.trx action))
    (leaves : leavesIndexes action = true) (moved : step heap.db action = some db) :
    Reaches mvccStep SafeCall heap { heap with db := db } := by
  refine .tail .refl safe ?_
  simp [mvccStep, MvccCall.heapAction, heapStep, leaves, moved]

/-- A commit goes through its operations one by one and ends; the induction is on the rest. -/
theorem commit_ends {commitXid : Int}
    (loop : (heap.db.trxs handle).endLoop = .commit commitXid rest) :
    ∃ last, Reaches mvccStep SafeCall heap last ∧ (last.db.trxs handle).endLoop = .none := by
  induction rest generalizing heap with
  | nil =>
    have ended := @trx_call_reaches heap (.commitEnd handle) _ ⟨trivial, trivial⟩ rfl
      (by rw [step, loop])
    exact ⟨_, ended, by simp⟩
  | cons operation rest ih =>
    have next := @trx_call_reaches heap (.commitNext handle) _ ⟨trivial, trivial⟩ rfl
      (by rw [step, loop])
    refine (ih ?_).imp fun last => And.imp_left (reaches_trans next)
    simp

theorem rollback_ends (loop : (heap.db.trxs handle).endLoop = .rollback rest) :
    ∃ last, Reaches mvccStep SafeCall heap last ∧ (last.db.trxs handle).endLoop = .none := by
  induction rest generalizing heap with
  | nil =>
    have ended := @trx_call_reaches heap (.rollbackEnd handle) _ ⟨trivial, trivial⟩ rfl
      (by rw [step, loop])
    exact ⟨_, ended, by simp⟩
  | cons operation rest ih =>
    have moved : step heap.db (.rollbackNext handle) =
        some ((heap.db.rollbackOperation operation).setTrx handle
          { heap.db.trxs handle with endLoop := .rollback rest }) := by
      simp [step, loop]
    have safe : SafeCall heap (.rollbackNext handle fun _ => .stamp 0) := trivial
    -- The key that an index would read is arbitrary.
    obtain ⟨after, taken, same⟩ : ∃ after,
        mvccStep heap (.rollbackNext handle fun _ => .stamp 0) = some after ∧
          (after.db.trxs handle).endLoop = .rollback rest := by
      simp only [mvccStep, MvccCall.heapAction, heapStep, moved, map_some]
      refine ⟨_, rfl, ?_⟩
      cases nextUndoneInsert heap.db handle <;> simp
    obtain ⟨last, reached, ended⟩ := ih same
    exact ⟨last, reaches_trans (.tail .refl safe taken) reached, ended⟩

/-- In every run of safe calls no assertion fails and no data is read through a null pointer,
and every commit and rollback can be brought to its end. -/
theorem safe_calls_violate_no_assertion {heap : Heap}
    (ran : Reaches mvccStep SafeCall empty heap) :
    (∀ call last, SafeCall heap call → mvccStep heap call = some last →
      AssertionsHold heap call) ∧
    ∀ handle, ∃ last, Reaches mvccStep SafeCall heap last ∧
      (last.db.trxs handle).endLoop = .none := by
  have guarded : Guarded heap :=
    reaches_invariant Guarded (fun _ _ _ => guarded_step) guarded_empty ran
  refine ⟨fun call last _ taken => assertions_of_guarded guarded taken, fun handle => ?_⟩
  cases loop : (heap.db.trxs handle).endLoop with
  | none => exact ⟨heap, .refl, loop⟩
  | commit commitXid rest => exact commit_ends loop
  | rollback rest => exact rollback_ends loop

def SafeWithoutIndex (heap : Heap) : MvccCall → Prop
  | .trx action => SafeAction heap.db action ∧ RollsBackUnindexed heap action
  | .createIndex .. => False
  | _ => True

instance (heap : Heap) (call : MvccCall) : Decidable (SafeWithoutIndex heap call) := by
  cases call <;> dsimp only [SafeWithoutIndex] <;> infer_instance

theorem safe_of_safe_without_index (heap : Heap) (call : MvccCall)
    (safe : SafeWithoutIndex heap call) : SafeCall heap call := by
  cases call with
  | trx | insertRecord | rollbackNext => exact safe
  | createIndex => exact safe.elim

def sampleSlot : Rid := ⟨1, 1, 0⟩

/-- A row is inserted under an index, deleted by its own transaction and committed; another
transaction then rolls back an insert into a table without an index. -/
def indexedStatements : List MvccCall :=
  [.trx (.startIfNeed 0), .insertRecord 0 sampleSlot fun _ => [7],
    .trx (.deleteRecord 0 sampleSlot), .trx (.commit 0), .trx (.commitNext 0),
    .trx (.commitNext 0), .trx (.commitEnd 0), .trx (.startIfNeed 1),
    .insertRecord 1 ⟨2, 1, 0⟩ fun _ => [8], .trx (.rollback 1)]

def indexedHeap : Heap := empty.createIndex (some 0) 1 (.user 0 .ints)

theorem indexed_statements_run :
    (run mvccStep SafeWithoutIndex indexedHeap indexedStatements).isSome = true := by
  decide +kernel

theorem safe_calls_violate_no_assertion_under_index :
    ∃ heap, Reaches mvccStep SafeCall empty heap ∧
      (heap.indexes 1).length = 1 ∧ (heap.db.trxs 1).pending.length = 1 ∧
      (∀ call last, SafeCall heap call → mvccStep heap call = some last →
        AssertionsHold heap call) ∧
      ∀ handle, ∃ last, Reaches mvccStep SafeCall heap last ∧
        (last.db.trxs handle).endLoop = .none := by
  have index_safe : SafeCall empty (.createIndex 0 1 (.user 0 .ints)) := nofun
  have created : Reaches mvccStep SafeCall empty indexedHeap := .tail .refl index_safe rfl
  have reached := reaches_trans created
    (reaches_mono safe_of_safe_without_index (run_get_reaches indexed_statements_run))
  exact ⟨_, reached, by decide +kernel, by decide +kernel,
    safe_calls_violate_no_assertion reached⟩

theorem bare_commit_runs : (mvccStep empty (.trx (.commit 0))).isSome = true := by
  decide +kernel

def bareCommit : Heap := (mvccStep empty (.trx (.commit 0))).get bare_commit_runs

theorem bare_commit_ends : (mvccStep bareCommit (.trx (.commitEnd 0))).isSome = true := by
  decide +kernel

/-- `COMMIT` as the first statement: the id of the new object is -1 when it is logged. -/
theorem commit_without_start_violates_assertion :
    ¬ ∀ heap, Reaches mvccStep (fun _ _ => True) empty heap →
      (∀ call last, mvccStep heap call = some last → AssertionsHold heap call) ∧
      ∀ handle, ∃ last, Reaches mvccStep (fun _ _ => True) heap last ∧
        (last.db.trxs handle).endLoop = .none := by
  intro never
  have reached : Reaches mvccStep (fun _ _ => True) empty bareCommit :=
    .tail .refl trivial (some_get bare_commit_runs).symm
  have asserted := (never bareCommit reached).1 _ _ (some_get bare_commit_ends).symm
  have positive := (asserted 1 (by decide +kernel)).1
  revert positive
  decide +kernel

end CsuDbms.HeapIndexModel
