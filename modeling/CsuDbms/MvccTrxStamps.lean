import CsuDbms.MvccTrxPending

/-!
# The stamps tell the history

Between two steps a record carries the negative id of a transaction exactly as
long as that transaction has not written its commit id over it. The invariant
says this of both stamps, row by row, and ties every pending operation to the
row it will touch.
-/

namespace CsuDbms.MvccTrxModel

open List Option Function

/-- No commit loop has gone over `operation` for transaction `x` yet. -/
def Unstamped (state : Tracked) (x : Int) (operation : Operation) : Prop :=
  state.history.commits x = none ∨
    ∃ handle, (state.db.trxs handle).trxId = x ∧ operation ∈ (state.db.trxs handle).pending

def Marked (row : RowHistory) (type : OperationType) (x : Int) : Prop :=
  match type with
  | .insert => x = row.insertedBy
  | .delete => x ∈ row.deletedBy

/-- The end stamp names the one transaction that deleted the row. Only the
inserter itself, or a transaction younger than the commit of the insert, can be
that transaction. -/
structure DeletedOnce (state : Tracked) (rid : Rid) (row : RowHistory) (record : Record)
    (y : Int) : Prop where
  positive : 0 < y ∧ y ≤ state.db.currentTrxId
  mem : y ∈ row.deletedBy
  only : ∀ z ∈ row.deletedBy, z = y
  stamp : record.endXid = -y ∧ Unstamped state y ⟨.delete, rid⟩ ∨
    state.history.commits y = some record.endXid
  younger : y = row.insertedBy ∨
    state.history.commits row.insertedBy = some record.beginXid ∧ record.beginXid < y

structure RowConsistent (state : Tracked) (rid : Rid) (row : RowHistory)
    (record : Record) : Prop where
  positive : 0 < row.insertedBy ∧ row.insertedBy ≤ state.db.currentTrxId
  beginStamp : record.beginXid = -row.insertedBy ∧ Unstamped state row.insertedBy ⟨.insert, rid⟩ ∨
    state.history.commits row.insertedBy = some record.beginXid
  endStamp : row.deletedBy = [] ∧ record.endXid = maxTrxId ∨
    ∃ y, DeletedOnce state rid row record y

structure SlotConsistent (state : Tracked) (rid : Rid) : Prop where
  present : state.history.rows rid = none ↔ state.db.records rid = none
  row : ∀ row record, state.history.rows rid = some row → state.db.records rid = some record →
    RowConsistent state rid row record

/-- The pending operations of one transaction object against the rows. Only its
own insert can a transaction delete twice (`repeated`). -/
structure OperationsConsistent (rows : Rid → Option RowHistory) (trx : MvccTrx) : Prop where
  insertRow : ∀ rid, ⟨.insert, rid⟩ ∈ trx.pending →
    ∃ row, rows rid = some row ∧ row.insertedBy = trx.trxId
  deleteRow : ∀ rid, ⟨.delete, rid⟩ ∈ trx.pending →
    ∃ row, rows rid = some row ∧ (trx.trxId ∈ row.deletedBy ∨
      (∃ rest, trx.endLoop = .rollback rest) ∧ row.insertedBy = trx.trxId ∧ row.deletedBy = [])
  coveredInsert : (∀ c rest, trx.endLoop ≠ .commit c rest) →
    ∀ rid row, rows rid = some row → row.insertedBy = trx.trxId → ⟨.insert, rid⟩ ∈ trx.pending
  coveredDelete : (∀ c rest, trx.endLoop ≠ .commit c rest) →
    ∀ rid row, rows rid = some row → trx.trxId ∈ row.deletedBy → ⟨.delete, rid⟩ ∈ trx.pending
  repeated : trx.pending.Pairwise fun earlier later => earlier.type = .delete →
    later = earlier → ∃ row, rows earlier.rid = some row ∧ row.insertedBy = trx.trxId
  forward : trx.endLoop = .none → trx.operations.Pairwise InsertFirst
  backward : ∀ rest, trx.endLoop = .rollback rest → rest.Pairwise (flip InsertFirst)

structure Consistent (state : Tracked) : Prop where
  ids : IdsConsistent state
  slots : ∀ rid, SlotConsistent state rid
  operations : ∀ handle, OperationsConsistent state.history.rows (state.db.trxs handle)
  abortedLive : ∀ rid row, state.history.rows rid = some row →
    ∀ x, x = row.insertedBy ∨ x ∈ row.deletedBy → state.history.aborted x = true →
      ∃ handle, (state.db.trxs handle).trxId = x

variable {state next : Tracked} {operation : Operation} {x : Int} {rid : Rid} {row : RowHistory}
  {record : Record}

def CommitsInjective (history : History) : Prop :=
  ∀ x y c, history.commits x = some c → history.commits y = some c → x = y

theorem commits_injective_step {action : Action} (ids : IdsConsistent state)
    (injective : CommitsInjective state.history) (met : CounterFits state.db action)
    (taken : trackedStep state action = some next) : CommitsInjective next.history := by
  intro x y c first second
  have old := injective x y c
  have low := ids.counterLow
  have firstBound := ids.commitBound x c
  have secondBound := ids.commitBound y c
  have firstDecided := decided_step taken x
  have secondDecided := decided_step taken y
  grind

section

variable {type : OperationType} (rowFacts : RowConsistent state rid row record)
include rowFacts

theorem stamp_of_marked (marked : Marked row type x) :
    record.stamp type = -x ∨ state.history.commits x = some (record.stamp type) := by
  cases type with
  | insert =>
    obtain rfl : x = row.insertedBy := marked
    exact rowFacts.beginStamp.imp_left And.left
  | delete =>
    rcases rowFacts.endStamp with ⟨nobody, -⟩ | ⟨y, once⟩
    · simp [Marked, nobody] at marked
    · exact once.only x marked ▸ once.stamp.imp_left And.left

theorem marked_of_stamp (ids : IdsConsistent state) (injective : CommitsInjective state.history)
    (stamped : record.stamp type = -x ∧ 0 < x ∨
      state.history.commits x = some (record.stamp type)) : Marked row type x := by
  have bound := ids.commitBound
  have counterHigh := ids.counterHigh
  obtain ⟨positive, beginStamp, endStamp⟩ := rowFacts
  cases type with
  | insert =>
    simp only [Record.stamp, Marked] at stamped ⊢
    grind [CommitsInjective]
  | delete =>
    simp only [Record.stamp, Marked] at stamped ⊢
    rcases endStamp with ⟨-, last⟩ | ⟨y, once⟩
    · grind [maxTrxId]
    · obtain rfl : x = y := by grind [CommitsInjective, DeletedOnce]
      exact once.mem

end

theorem undecided_of_open {handle : Nat} (ids : IdsConsistent state)
    (running : 0 < (state.db.trxs handle).trxId)
    (open_ : ∀ c rest, (state.db.trxs handle).endLoop ≠ .commit c rest) :
    state.history.commits (state.db.trxs handle).trxId = none := by
  cases loop : (state.db.trxs handle).endLoop with
  | none =>
    have started := ((ids.trx handle).runningLoop running).resolve_right (absurd loop)
    exact ((ids.trx handle).startedOpen started).1
  | commit c rest => exact absurd loop (open_ c rest)
  | rollback rest => exact (ids.abortedBound _ ((ids.trx handle).aborting rest running loop)).1

section

variable (slots : ∀ rid, SlotConsistent state rid)
include slots

theorem row_of_record (stored : state.db.records rid = some record) :
    ∃ row, state.history.rows rid = some row ∧ RowConsistent state rid row record := by
  have slot := slots rid
  cases found : state.history.rows rid with
  | none => simp [slot.present.mp found] at stored
  | some row => exact ⟨row, rfl, slot.row row record found stored⟩

theorem record_of_row (found : state.history.rows rid = some row) :
    ∃ record, state.db.records rid = some record ∧ RowConsistent state rid row record := by
  have slot := slots rid
  cases stored : state.db.records rid with
  | none => simp [slot.present.mpr stored] at found
  | some record => exact ⟨record, rfl, slot.row row record found stored⟩

theorem row_positive (found : state.history.rows rid = some row) :
    (0 < row.insertedBy ∧ row.insertedBy ≤ state.db.currentTrxId) ∧
      ∀ y ∈ row.deletedBy, 0 < y ∧ y ≤ state.db.currentTrxId := by
  obtain ⟨record, stored, rowFacts⟩ := record_of_row slots found
  refine ⟨rowFacts.positive, fun y deleter => ?_⟩
  rcases rowFacts.endStamp with ⟨nobody, -⟩ | ⟨z, once⟩
  · simp [nobody] at deleter
  · rw [once.only y deleter]
    exact once.positive

theorem marked_positive {type : OperationType} (found : state.history.rows rid = some row)
    (marked : Marked row type x) : 0 < x := by
  have positive := row_positive slots found
  cases type with
  | insert => exact marked ▸ positive.1.1
  | delete => exact (positive.2 x marked).1

theorem aborting_row_private {handle : Nat} (ids : IdsConsistent state)
    (found : state.history.rows rid = some row)
    (inserter : row.insertedBy = (state.db.trxs handle).trxId)
    (aborted : state.history.aborted (state.db.trxs handle).trxId = true) :
    ∀ y ∈ row.deletedBy, y = (state.db.trxs handle).trxId := by
  obtain ⟨record, stored, rowFacts⟩ := record_of_row slots found
  have undecided := (ids.abortedBound _ aborted).1
  intro y deleter
  rcases rowFacts.endStamp with ⟨nobody, -⟩ | ⟨z, once⟩
  · simp [nobody] at deleter
  · rw [once.only y deleter]
    rcases once.younger with same | ⟨committed, -⟩
    · exact same.trans inserter
    · rw [inserter, undecided] at committed
      cases committed

/-- The stamps show whose operations are ahead on a row, and the history tells the same. -/
theorem operations_of_slots (accounted : Accounted state)
    (injective : CommitsInjective state.history) (handle : Nat) :
    OperationsConsistent state.history.rows (state.db.trxs handle) := by
  obtain ⟨ids, owned, pending⟩ := accounted
  obtain ⟨ordered, shown, repeated⟩ := pending.trx handle
  have inserted : ∀ rid, ⟨.insert, rid⟩ ∈ (state.db.trxs handle).pending →
      ∃ row, state.history.rows rid = some row ∧ row.insertedBy = (state.db.trxs handle).trxId := by
    intro rid ahead
    obtain ⟨record, stored, begun⟩ := shown .insert rid ahead
    obtain ⟨row, found, rowFacts⟩ := row_of_record slots stored
    have marked : Marked row .insert _ :=
      marked_of_stamp rowFacts ids injective (.inl ⟨begun, running_of_pending ids ahead⟩)
    exact ⟨row, found, marked.symm⟩
  have covered : ∀ type, (∀ c rest, (state.db.trxs handle).endLoop ≠ .commit c rest) →
      ∀ rid row, state.history.rows rid = some row →
        Marked row type (state.db.trxs handle).trxId →
          ⟨type, rid⟩ ∈ (state.db.trxs handle).pending := by
    intro type open_ rid row found marked
    have running := marked_positive slots found marked
    obtain ⟨record, stored, rowFacts⟩ := record_of_row slots found
    rcases stamp_of_marked rowFacts marked with stamp | committed
    · exact owned.ahead handle type rid record stored running stamp
    · rw [undecided_of_open ids running open_] at committed
      cases committed
  refine ⟨inserted, fun rid ahead => ?_, fun open_ rid row found same =>
    covered .insert open_ rid row found same.symm, covered .delete, ?_, ?_, ?_⟩
  · have running := running_of_pending ids ahead
    obtain ⟨record, stored, shows⟩ := shown .delete rid ahead
    obtain ⟨row, found, rowFacts⟩ := row_of_record slots stored
    have marked : _ → Marked row .delete (state.db.trxs handle).trxId :=
      marked_of_stamp rowFacts ids injective
    refine ⟨row, found, ?_⟩
    rcases shows with ⟨inside, ended | rolling⟩ | ⟨-, ended⟩ | ⟨c, committing, rfl⟩
    · exact .inl (marked (.inl ⟨ended, running⟩))
    · -- The loop may have gone over one of two deletes of its own row.
      obtain ⟨_, same, inserter⟩ := inserted rid inside
      cases found.symm.trans same
      have aborted := (ids.trx handle).aborting _ running rolling.choose_spec
      have onlyOwn := aborting_row_private slots ids found inserter aborted
      rcases eq_nil_or_concat row.deletedBy with nobody | ⟨_, y, some⟩
      · exact .inr ⟨rolling, inserter, nobody⟩
      · have deleter : y ∈ row.deletedBy := by simp [some]
        exact .inl (onlyOwn y deleter ▸ deleter)
    · exact .inl (marked (.inl ⟨ended, running⟩))
    · exact .inl (marked (.inr (commit_id_positive ids running committing).2))
  · refine pairwise_iff_forall_sublist.mpr fun {earlier later} both isDelete same => ?_
    obtain ⟨type, rid⟩ := earlier
    obtain rfl : type = .delete := isDelete
    subst same
    have twice := both.count_le ⟨.delete, rid⟩
    rcases repeated rid (by simpa using twice) with inside | ⟨c, record, committing, stored, begun⟩
    · exact inserted rid inside
    · obtain ⟨row, found, rowFacts⟩ := row_of_record slots stored
      have running := running_of_pending ids (both.subset mem_cons_self)
      have drawn := (commit_id_positive ids running committing).2
      have marked : Marked row .insert _ :=
        marked_of_stamp rowFacts ids injective (.inr (begun ▸ drawn))
      exact ⟨row, found, marked.symm⟩
  · intro looping
    simpa [MvccTrx.ordered, looping] using ordered
  · intro rest loop
    simp only [MvccTrx.ordered, loop] at ordered
    exact ordered

end

variable {handle : Nat}

/-- What an admitted delete finds under the guard: its own insert, which nobody
else touched, or a live row committed before it started. -/
theorem deletable_row (consistent : Consistent state)
    (found : state.history.rows rid = some row) (stored : state.db.records rid = some record)
    (visited : visitRecord (state.db.trxs handle).trxId record .readWrite = .success)
    (met : ¬(record.beginXid ≤ (state.db.trxs handle).trxId ∧
      (state.db.trxs handle).trxId ≤ record.endXid ∧ record.endXid < maxTrxId)) :
    ((state.db.trxs handle).trxId = row.insertedBy ∧
        ∀ y ∈ row.deletedBy, y = (state.db.trxs handle).trxId) ∨
      (row.deletedBy = [] ∧ state.history.commits row.insertedBy = some record.beginXid ∧
        record.beginXid < (state.db.trxs handle).trxId) := by
  obtain ⟨positive, beginStamp, endStamp⟩ := (consistent.slots rid).row row record found stored
  have bound := consistent.ids.commitBound
  have counterHigh := consistent.ids.counterHigh
  have notCommitId := (consistent.ids.trx handle).notCommitId row.insertedBy
  have beginFacts : record.beginXid = -row.insertedBy ∨
      state.history.commits row.insertedBy = some record.beginXid ∧ 0 < record.beginXid := by
    rcases beginStamp with ⟨stamp, -⟩ | committed
    · exact .inl stamp
    · have := bound _ _ committed
      exact .inr ⟨committed, by omega⟩
  rcases visit_read_write_success visited with ⟨low, high, settled⟩ | ⟨ownStamp, negative⟩ | zero
  · have committed := beginFacts.resolve_left (by omega)
    have different : record.beginXid ≠ (state.db.trxs handle).trxId :=
      fun same => notCommitId (same ▸ committed.1)
    refine .inr ⟨?_, committed.1, by omega⟩
    rcases endStamp with ⟨nobody, -⟩ | ⟨y, once⟩
    · exact nobody
    · have yPositive := once.positive
      rcases once.stamp with ⟨stamp, -⟩ | deleted
      · omega
      · have := bound _ _ deleted
        omega
  · have owner := beginFacts.resolve_right (by omega)
    refine .inl ⟨by omega, ?_⟩
    rcases endStamp with ⟨nobody, -⟩ | ⟨y, once⟩
    · simp [nobody]
    · intro z deleter
      rw [once.only z deleter]
      rcases once.younger with same | ⟨committed, -⟩
      · omega
      · have := bound _ _ committed
        omega
  · exfalso
    rcases endStamp with ⟨-, last⟩ | ⟨y, once⟩
    · simp only [maxTrxId] at last
      omega
    · have yPositive := once.positive
      rcases once.stamp with ⟨stamp, -⟩ | deleted
      · omega
      · have := bound _ _ deleted
        omega

theorem aborting_head (ids : IdsConsistent state)
    {rest : List Operation} (loop : (state.db.trxs handle).endLoop = .rollback (operation :: rest)) :
    operation ∈ (state.db.trxs handle).pending ∧
      state.history.aborted (state.db.trxs handle).trxId = true := by
  have ahead : operation ∈ (state.db.trxs handle).pending := by simp [MvccTrx.pending, loop]
  exact ⟨ahead, (ids.trx handle).aborting _ (running_of_pending ids ahead) loop⟩

section Step

variable {action : Action} (accounted : Accounted state)
  (taken : trackedStep state action = some next)
include accounted taken

/-- A transaction keeps its object until it has nothing ahead, or is dropped undecided. -/
theorem owner_step (running : 0 < (state.db.trxs handle).trxId) :
    (next.db.trxs handle).trxId = (state.db.trxs handle).trxId ∨
      (state.db.trxs handle).pending = [] ∨
      next.history.commits (state.db.trxs handle).trxId = none ∧
        next.history.aborted (state.db.trxs handle).trxId = false := by
  obtain ⟨trx, trxs, effect⟩ := stamp_step_of_ids accounted.ids taken
  rw [trxs, update_apply]
  split
  · rename_i acting
    subst acting
    have facts := accounted.ids.trx action.handle
    cases effect with
    | keeps change id => exact .inl id
    | draws acts unstarted looping =>
      have idle := idle_of_unstarted accounted.ids (by simp [unstarted]) looping
      omega
    | drops records id current idle =>
      refine .inr (idle.imp_right fun destroys => ?_)
      rw [destroys] at taken
      generalize action.handle = handle at *
      cases transition_of_step taken with
      | keep =>
        rw [trxs, id, update_self] at running
        cases running
      | destroy looping =>
        exact facts.startedOpen ((facts.runningLoop running).resolve_right (absurd looping))
  · exact .inl rfl

variable (met : CounterFits state.db action) (stored : next.db.records rid = some record)
include met stored

theorem unstamped_step {type : OperationType} (positive : 0 < x)
    (stamp : record.stamp type = -x) (unstamped : Unstamped state x ⟨type, rid⟩) :
    Unstamped next x ⟨type, rid⟩ := by
  have ahead := (accounted_step accounted met taken).stamps.ahead
  rcases unstamped with uncommitted | ⟨handle, rfl, pending⟩
  · rcases decided_step taken x with ⟨same, -⟩ | ⟨-, kept, -⟩
    · exact .inl (same ▸ uncommitted)
    · refine .inr ⟨action.handle, kept, ahead action.handle type rid record stored ?_ ?_⟩
      · rwa [kept]
      · rw [stamp, kept]
  · rcases owner_step accounted taken positive with same | idle | undecided
    · refine .inr ⟨handle, same, ahead handle type rid record stored (same ▸ positive) ?_⟩
      rw [stamp, same]
    · simp [idle] at pending
    · exact .inl undecided.1

theorem stamp_kept (type : OperationType) (positive : 0 < x)
    (known : record.stamp type = -x ∧ Unstamped state x ⟨type, rid⟩ ∨
      state.history.commits x = some (record.stamp type)) :
    record.stamp type = -x ∧ Unstamped next x ⟨type, rid⟩ ∨
      next.history.commits x = some (record.stamp type) :=
  known.imp
    (fun ⟨stamp, unstamped⟩ =>
      ⟨stamp, unstamped_step accounted taken met stored positive stamp unstamped⟩)
    (commits_monotone accounted.ids taken)

theorem end_stamp_kept {old : Record} (rowFacts : RowConsistent state rid row old)
    (same : record.endXid = old.endXid)
    (begun : ∀ y, state.history.commits row.insertedBy = some old.beginXid ∧ old.beginXid < y →
      next.history.commits row.insertedBy = some record.beginXid ∧ record.beginXid < y) :
    row.deletedBy = [] ∧ record.endXid = maxTrxId ∨ ∃ y, DeletedOnce next rid row record y := by
  have grows := (ids_after_step accounted.ids.counterLow met taken).1
  obtain ⟨begin, last⟩ := record
  obtain rfl : last = old.endXid := same
  refine rowFacts.endStamp.imp_right fun ⟨y, once⟩ => ⟨y, ?_⟩
  exact
    { positive := ⟨once.positive.1, Int.le_trans once.positive.2 grows⟩
      mem := once.mem
      only := once.only
      stamp := stamp_kept accounted taken met stored .delete once.positive.1 once.stamp
      younger := once.younger.imp_right (begun y) }

theorem row_written {old : Record} {after : RowHistory} (rowFacts : RowConsistent state rid row old)
    (inserter : after.insertedBy = row.insertedBy)
    (begun : record.beginXid = old.beginXid ∨
      state.history.commits row.insertedBy = some record.beginXid)
    (ends : after.deletedBy = [] ∧ record.endXid = maxTrxId ∨
      ∃ y, DeletedOnce next rid after record y) :
    RowConsistent next rid after record where
  positive := by
    have grows := (ids_after_step accounted.ids.counterLow met taken).1
    exact inserter ▸ ⟨rowFacts.positive.1, Int.le_trans rowFacts.positive.2 grows⟩
  beginStamp := by
    rw [inserter]
    refine stamp_kept accounted taken met stored .insert rowFacts.positive.1 ?_
    rcases begun with same | committed
    · simpa [Record.stamp, same] using rowFacts.beginStamp
    · exact .inr committed
  endStamp := ends

end Step

theorem slot_of_row (stored : state.db.records rid = some record)
    (found : state.history.rows rid = some row)
    (facts : RowConsistent state rid row record) : SlotConsistent state rid where
  present := by simp [stored, found]
  row := by
    intro _ _ sameRow same
    cases found.symm.trans sameRow
    cases stored.symm.trans same
    exact facts

theorem marked_before {action : Action} (taken : trackedStep state action = some next)
    {type : OperationType} (found : next.history.rows rid = some row) (marked : Marked row type x) :
    (∃ old, state.history.rows rid = some old ∧ Marked old type x) ∨
      ∃ handle, (state.db.trxs handle).started = true ∧ x = (state.db.trxs handle).trxId := by
  rcases slot_step taken rid with ⟨-, same⟩ | change
  · exact .inl ⟨row, same ▸ found, marked⟩
  generalize next.db.records rid = written, next.history.rows rid = after at change found
  cases change with
  | @insert handle started =>
    cases found
    cases type with
    | insert => exact .inr ⟨handle, started, marked⟩
    | delete => cases marked
  | @delete handle _ started =>
    obtain ⟨old, before, rfl⟩ := map_eq_some_iff.mp found
    cases type with
    | insert => exact .inl ⟨old, before, marked⟩
    | delete =>
      rcases mem_cons.mp marked with own | deleter
      · exact .inr ⟨handle, started, own⟩
      · exact .inl ⟨old, before, deleter⟩
  | commitInsert | commitDelete => exact .inl ⟨row, found, marked⟩
  | rollbackInsert => cases found
  | rollbackDelete =>
    obtain ⟨old, before, rfl⟩ := map_eq_some_iff.mp found
    refine .inl ⟨old, before, ?_⟩
    cases type with
    | insert => exact marked
    | delete => exact mem_of_mem_filter marked

section

variable {action : Action} (accounted : Accounted state) (consistent : Consistent state)
  (taken : trackedStep state action = some next)
include accounted consistent taken

theorem aborted_live_step (type : OperationType) (found : next.history.rows rid = some row)
    (marked : Marked row type x) (rolledBack : next.history.aborted x = true) :
    ∃ handle, (next.db.trxs handle).trxId = x := by
  rcases decided_step taken x with ⟨-, same⟩ | ⟨-, kept, -⟩
  · have aborted := same ▸ rolledBack
    rcases marked_before taken found marked with ⟨old, before, owner⟩ | ⟨handle, started, rfl⟩
    · obtain ⟨handle, rfl⟩ := consistent.abortedLive rid old before x (by
        cases type with
        | insert => exact .inl owner
        | delete => exact .inr owner) aborted
      have running := marked_positive consistent.slots before owner
      rcases owner_step accounted taken running with same | idle | ⟨-, undecided⟩
      · exact ⟨handle, same⟩
      · obtain ⟨record, stored, rowFacts⟩ := record_of_row consistent.slots before
        rcases stamp_of_marked rowFacts owner with stamp | committed
        · have ahead := accounted.stamps.ahead handle type rid record stored running stamp
          simp [idle] at ahead
        · simp [(accounted.ids.abortedBound _ aborted).1] at committed
      · simp [rolledBack] at undecided
    · simp [((accounted.ids.trx handle).startedOpen started).2] at aborted
  · exact ⟨_, kept⟩

variable (met : LeavesCommittedDeletes state.db action)
include met

theorem slots_step (rid : Rid) : SlotConsistent next rid := by
  have fits := counter_fits_of_leaves met
  have grows := (ids_after_step accounted.ids.counterLow fits taken).1
  have keeps := fun {x c} => @commits_monotone _ _ _ accounted.ids taken x c
  have slot := consistent.slots rid
  rcases slot_step taken rid with ⟨sameRecord, sameRow⟩ | change
  · refine ⟨by rw [sameRow, sameRecord, slot.present], fun row record found stored => ?_⟩
    have rowFacts := slot.row row record (sameRow ▸ found) (sameRecord ▸ stored)
    exact row_written accounted taken fits stored rowFacts rfl (.inl rfl)
      (end_stamp_kept accounted taken fits stored rowFacts rfl fun y => And.imp_left keeps)
  generalize storedAfter : next.db.records rid = written,
    foundAfter : next.history.rows rid = after at change
  cases change with
  | @insert handle started free =>
    have trx := accounted.ids.trx handle
    have running := (trx.startedLoop started).2
    refine slot_of_row storedAfter foundAfter ?_
    exact
      { positive := ⟨running, Int.le_trans trx.idHigh grows⟩
        beginStamp := stamp_kept accounted taken fits storedAfter .insert running
          (.inl ⟨rfl, .inl (trx.startedOpen started).1⟩)
        endStamp := .inl ⟨rfl, rfl⟩ }
  | @delete handle record started stored visited =>
    have trx := accounted.ids.trx handle
    have running := (trx.startedLoop started).2
    obtain ⟨row, found, rowFacts⟩ := row_of_record consistent.slots stored
    have deletable := deletable_row consistent found stored visited (met _ stored)
    have onlyOwn : ∀ y ∈ row.deletedBy, y = (state.db.trxs handle).trxId := by
      rcases deletable with ⟨-, onlyOwn⟩ | ⟨nobody, -⟩
      · exact onlyOwn
      · simp [nobody]
    rw [found, map_some] at foundAfter
    refine slot_of_row storedAfter foundAfter (row_written accounted taken fits storedAfter
      rowFacts rfl (.inl rfl) (.inr ⟨(state.db.trxs handle).trxId, ?_⟩))
    exact
      { positive := ⟨running, Int.le_trans trx.idHigh grows⟩
        mem := mem_cons_self
        only := by simpa using onlyOwn
        stamp := stamp_kept accounted taken fits storedAfter .delete running
          (.inl ⟨rfl, .inl (trx.startedOpen started).1⟩)
        younger := deletable.imp And.left fun older => older.2.imp_left keeps }
  | @commitInsert handle commitXid rest loop =>
    obtain ⟨ahead, -, committed⟩ := committing_head accounted.ids loop
    obtain ⟨row, found, inserter⟩ := (consistent.operations handle).insertRow rid ahead
    obtain ⟨record, stored, rowFacts⟩ := record_of_row consistent.slots found
    rw [← inserter] at committed
    rw [found] at foundAfter
    rw [stored, map_some] at storedAfter
    refine slot_of_row storedAfter foundAfter (row_written accounted taken fits storedAfter
      rowFacts rfl (.inr committed) (end_stamp_kept accounted taken fits storedAfter
        rowFacts rfl ?_))
    rintro y ⟨before, smaller⟩
    cases committed.symm.trans before
    exact ⟨keeps committed, smaller⟩
  | @commitDelete handle commitXid rest loop =>
    obtain ⟨ahead, -, committed⟩ := committing_head accounted.ids loop
    obtain ⟨row, found, deleter⟩ := (consistent.operations handle).deleteRow rid ahead
    have deleter := deleter.resolve_right (by simp [loop])
    obtain ⟨record, stored, rowFacts⟩ := record_of_row consistent.slots found
    obtain ⟨y, once⟩ := rowFacts.endStamp.resolve_left (by
      rintro ⟨nobody, -⟩
      simp [nobody] at deleter)
    rw [once.only _ deleter] at committed
    rw [found] at foundAfter
    rw [stored, map_some] at storedAfter
    refine slot_of_row storedAfter foundAfter
      (row_written accounted taken fits storedAfter rowFacts rfl (.inl rfl) (.inr ⟨y, ?_⟩))
    exact
      { positive := ⟨once.positive.1, Int.le_trans once.positive.2 grows⟩
        mem := once.mem
        only := once.only
        stamp := .inr (keeps committed)
        younger := once.younger.imp_right (And.imp_left keeps) }
  | rollbackInsert => exact ⟨by simp [storedAfter, foundAfter], by simp [foundAfter]⟩
  | @rollbackDelete handle rest loop =>
    have ahead := pending_rolling_back loop ▸ mem_cons_self
    obtain ⟨row, found, deleter⟩ := (consistent.operations handle).deleteRow rid ahead
    obtain ⟨record, stored, rowFacts⟩ := record_of_row consistent.slots found
    have onlyOwn : ∀ y ∈ row.deletedBy, y = (state.db.trxs handle).trxId := by
      rcases rowFacts.endStamp with ⟨nobody, -⟩ | ⟨z, once⟩
      · simp [nobody]
      · rcases deleter with mem | ⟨-, -, nobody⟩
        · intro y other
          rw [once.only y other, once.only _ mem]
        · simp [nobody]
    have cleared : row.deletedBy.filter (fun x => x ≠ (state.db.trxs handle).trxId) = [] := by
      simpa using onlyOwn
    rw [found, map_some, cleared] at foundAfter
    rw [stored, map_some] at storedAfter
    exact slot_of_row storedAfter foundAfter
      (row_written accounted taken fits storedAfter rowFacts rfl (.inl rfl) (.inl ⟨rfl, rfl⟩))

end

structure Traced (state : Tracked) : Prop where
  accounted : Accounted state
  injective : CommitsInjective state.history
  consistent : Consistent state

theorem traced_empty : Traced Tracked.empty where
  accounted := accounted_empty
  injective := nofun
  consistent := by
    have slots : ∀ rid, SlotConsistent Tracked.empty rid :=
      fun _ => ⟨⟨fun _ => rfl, fun _ => rfl⟩, nofun⟩
    exact ⟨ids_consistent_empty, slots, operations_of_slots slots accounted_empty nofun, nofun⟩

theorem traced_step {action : Action} (traced : Traced state)
    (met : LeavesCommittedDeletes state.db action) (taken : trackedStep state action = some next) :
    Traced next := by
  obtain ⟨accounted, injective, consistent⟩ := traced
  have fits := counter_fits_of_leaves met
  have after := accounted_step accounted fits taken
  have commits := commits_injective_step accounted.ids injective fits taken
  have slots := slots_step accounted consistent taken met
  refine ⟨after, commits, after.ids, slots, operations_of_slots slots after commits, ?_⟩
  rintro rid row found x (inserter | deleter)
  · exact aborted_live_step accounted consistent taken .insert found inserter
  · exact aborted_live_step accounted consistent taken .delete found deleter

end CsuDbms.MvccTrxModel
