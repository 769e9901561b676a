import CsuDbms.MvccTrxStamps

/-!
# Committed deletes stay

`MvccTrx::delete_record` admits a transaction on a row whose end stamp is a
commit id, as long as that id is not smaller than its own. Such a transaction
overwrites the stamp, and its rollback makes the row alive again.
-/

namespace CsuDbms.MvccTrxModel

open TransitionSystem

def AnyStep (_ : Tracked) (_ : Action) : Prop := True

instance (state : Tracked) (action : Action) : Decidable (AnyStep state action) :=
  inferInstanceAs (Decidable True)

def KeepsDeletes (state : Tracked) (action : Action) : Prop :=
  LeavesCommittedDeletes state.db action

instance (state : Tracked) (action : Action) : Decidable (KeepsDeletes state action) :=
  inferInstanceAs (Decidable (LeavesCommittedDeletes state.db action))

variable {state : Tracked}

theorem reaches_consistent
    (run : Reaches trackedStep KeepsDeletes Tracked.empty state) : Consistent state :=
  (reaches_invariant Traced (fun _ _ _ traced met taken => traced_step traced met taken)
    traced_empty run).consistent

def DeleteCommitted (state : Tracked) (rid : Rid) (y : Int) : Prop :=
  ∃ row c, state.history.rows rid = some row ∧ y ∈ row.deletedBy ∧
    state.history.commits y = some c

def SameEndStamp (before after : Db) (rid : Rid) : Prop :=
  ∃ old new, before.records rid = some old ∧ after.records rid = some new ∧
    new.endXid = old.endXid ∧ new.endXid ≠ maxTrxId

theorem deleted_row_of_other (consistent : Consistent state) {rid : Rid}
    {row : RowHistory} {record : Record} {y : Int} (found : state.history.rows rid = some row)
    (stored : state.db.records rid = some record) (deleter : y ∈ row.deletedBy) :
    (∀ z ∈ row.deletedBy, z = y) ∧ record.endXid ≠ maxTrxId := by
  have counterHigh := consistent.ids.counterHigh
  obtain ⟨z, once⟩ := ((consistent.slots rid).row row record found stored).endStamp.resolve_left
    (by rintro ⟨nobody, -⟩; simp [nobody] at deleter)
  have positive := once.positive
  refine ⟨fun x mem => by rw [once.only x mem, once.only y deleter], ?_⟩
  rcases once.stamp with ⟨stamp, -⟩ | committed
  · simp only [maxTrxId]
    omega
  · have := consistent.ids.commitBound _ _ committed
    omega

theorem same_end_stamp_step {next : Tracked} {action : Action}
    (consistent : Consistent state) (met : LeavesCommittedDeletes state.db action)
    (taken : trackedStep state action = some next) {rid : Rid} {row : RowHistory} {y : Int}
    (found : state.history.rows rid = some row) (deleter : y ∈ row.deletedBy)
    (other : (state.db.trxs action.handle).trxId ≠ y) :
    SameEndStamp state.db next.db rid ∧ next.history.rows rid = some row := by
  obtain ⟨record, stored, -⟩ := record_of_row consistent.slots found
  obtain ⟨onlyDeleter, deleted⟩ := deleted_row_of_other consistent found stored deleter
  rcases slot_step taken rid with ⟨same, sameRow⟩ | change
  · exact ⟨⟨record, record, stored, same.trans stored, rfl, deleted⟩, sameRow.trans found⟩
  rw [SameEndStamp]
  generalize next.db.records rid = written, next.history.rows rid = after at change ⊢
  cases change with
  | insert _ free => simp [free] at stored
  | @delete handle _ _ storedThere visited =>
    rcases deletable_row consistent found storedThere visited (met _ storedThere) with
      ⟨-, onlyOwn⟩ | ⟨nobody, -⟩
    · exact absurd (onlyOwn y deleter).symm other
    · simp [nobody] at deleter
  | @commitInsert handle commitXid rest loop =>
    exact ⟨⟨record, _, stored, congrArg (Option.map _) stored, rfl, deleted⟩, found⟩
  | @commitDelete handle commitXid rest loop =>
    have ahead := (committing_head consistent.ids loop).1
    obtain ⟨owned, foundOwned, own⟩ := (consistent.operations handle).deleteRow rid ahead
    cases found.symm.trans foundOwned
    exact absurd (onlyDeleter _ (own.resolve_right (by simp [loop]))) other
  | @rollbackInsert handle rest loop =>
    obtain ⟨ahead, aborted⟩ := aborting_head consistent.ids loop
    obtain ⟨owned, foundOwned, inserter⟩ := (consistent.operations handle).insertRow rid ahead
    cases found.symm.trans foundOwned
    exact absurd (aborting_row_private consistent.slots consistent.ids found inserter aborted y deleter).symm other
  | @rollbackDelete handle rest loop =>
    have ahead := (aborting_head consistent.ids loop).1
    obtain ⟨owned, foundOwned, own | ⟨-, -, nobody⟩⟩ :=
      (consistent.operations handle).deleteRow rid ahead
    · cases found.symm.trans foundOwned
      exact absurd (onlyDeleter _ own) other
    · cases found.symm.trans foundOwned
      simp [nobody] at deleter

/-- In a run whose deletes never hit a row that a committed delete still shows
to them, no step of another transaction touches the end stamp of a row after
the commit of its delete. The row stays dead, and the delete stays committed
for every step that follows. -/
theorem committed_delete_is_final {state next : Tracked} {action : Action}
    (run : Reaches trackedStep KeepsDeletes Tracked.empty state)
    (met : KeepsDeletes state action) (taken : trackedStep state action = some next)
    {rid : Rid} {y : Int} (committed : DeleteCommitted state rid y)
    (other : (state.db.trxs action.handle).trxId ≠ y) :
    SameEndStamp state.db next.db rid ∧ DeleteCommitted next rid y := by
  obtain ⟨row, c, found, deleter, commit⟩ := committed
  have consistent := reaches_consistent run
  obtain ⟨stamp, sameRow⟩ := same_end_stamp_step consistent met taken found deleter other
  exact ⟨stamp, row, c, sameRow, deleter, commits_monotone consistent.ids taken commit⟩

def exampleRid : Rid := { tableId := 1, pageNum := 1, slotNum := 0 }

/-- A row is committed, two transactions start, and the first one deletes the
row and commits while the second is still open. -/
def deleteUnderReader : List Action :=
  [.startIfNeed 0, .insertRecord 0 exampleRid, .commit 0, .commitNext 0, .commitEnd 0,
    .startIfNeed 0, .startIfNeed 1, .deleteRecord 0 exampleRid, .commit 0, .commitNext 0,
    .commitEnd 0]

/-- Until the ids run out, whatever the order of the steps, no two transactions have changes of
one record ahead of them, and the record of such a change is there. -/
theorem pending_changes_apart {state : Tracked}
    (run : Reaches trackedStep (fun state => CounterFits state.db) Tracked.empty state)
    {handle other : Nat} {rid : Rid} (here : (state.db.trxs handle).touches rid)
    (there : (state.db.trxs other).touches rid) :
    handle = other ∧ (state.db.records rid).isSome = true := by
  have accounted := reaches_invariant Accounted (fun _ _ _ => accounted_step) accounted_empty run
  have same := accounted.pending.exclusive handle other rid here there
  obtain ⟨type, ahead⟩ := here
  obtain ⟨record, stored, -⟩ := (accounted.pending.trx handle).shown type rid ahead
  exact ⟨same, stored ▸ rfl⟩

theorem pending_delete_apart_from_reader : ∃ state,
    Reaches trackedStep (fun state => CounterFits state.db) Tracked.empty state ∧
      (state.db.trxs 1).started = true ∧ (state.db.records exampleRid).isSome = true := by
  have runs : (run trackedStep KeepsDeletes Tracked.empty (deleteUnderReader.take 8)).isSome =
    true := by decide
  have reached := reaches_mono (fun _ _ => counter_fits_of_leaves) (run_get_reaches runs)
  have touched : (((run _ _ _ _).get runs).db.trxs 0).touches exampleRid := ⟨.delete, .head _⟩
  exact ⟨_, reached, rfl, (pending_changes_apart reached touched touched).2⟩

theorem committed_delete_is_final_under_reader :
    ∃ state next, trackedStep state (.rollback 1) = some next ∧
      DeleteCommitted state exampleRid 3 ∧ SameEndStamp state.db next.db exampleRid ∧
      DeleteCommitted next exampleRid 3 := by
  let reached := run trackedStep KeepsDeletes Tracked.empty deleteUnderReader
  have runs : reached.isSome = true := by decide
  have committed : DeleteCommitted (reached.get runs) exampleRid 3 :=
    ⟨⟨1, [3]⟩, 5, rfl, by decide, rfl⟩
  have met : KeepsDeletes (reached.get runs) (.rollback 1) := trivial
  have reader : ((reached.get runs).db.trxs (Action.rollback 1).handle).trxId = 4 := rfl
  exact ⟨reached.get runs, _, rfl, committed,
    committed_delete_is_final (run_get_reaches runs) met rfl committed
      fun same => by cases reader.symm.trans same⟩

/-- The second transaction, which began before that commit, deletes the row
again and thereby overwrites the end stamp; its rollback makes the row alive. -/
theorem committed_delete_overwritten :
    ∃ state next final, Reaches trackedStep AnyStep Tracked.empty state ∧
      DeleteCommitted state exampleRid 3 ∧
      (state.db.trxs (Action.deleteRecord 1 exampleRid).handle).trxId ≠ 3 ∧
      trackedStep state (.deleteRecord 1 exampleRid) = some next ∧
      ¬SameEndStamp state.db next.db exampleRid ∧
      run trackedStep AnyStep next [.rollback 1, .rollbackNext 1, .rollbackEnd 1] = some final ∧
      (final.db.records exampleRid).map Record.endXid = some maxTrxId := by
  let reached := run trackedStep AnyStep Tracked.empty deleteUnderReader
  have runs : reached.isSome = true := by decide
  have reader : ((reached.get runs).db.trxs (Action.rollback 1).handle).trxId = 4 := rfl
  refine ⟨reached.get runs, _, _, run_get_reaches runs, ⟨⟨1, [3]⟩, 5, rfl, by decide, rfl⟩,
    fun same => ?_, rfl, ?_, rfl, rfl⟩
  · cases reader.symm.trans same
  · rintro ⟨old, new, before, after, same, -⟩
    have oldStamp : some (5 : Int) = some old.endXid :=
      congrArg (Option.map Record.endXid) before
    have newStamp : some (-4 : Int) = some new.endXid :=
      congrArg (Option.map Record.endXid) after
    cases (Option.some.inj oldStamp).trans (same.symm.trans (Option.some.inj newStamp).symm)

end CsuDbms.MvccTrxModel
