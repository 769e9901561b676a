import CsuDbms.MvccTrxHistory

/-!
# What the pending operations say about the slots

`Consistent` speaks of runs in which no delete hits a row that a committed
delete still shows to it. The facts here hold in every run whose id counter
does not run out: an operation that is still ahead of its transaction is
visible in the stamps of its slot, and no other transaction has an operation
ahead on that slot.
-/

namespace CsuDbms.MvccTrxModel

open List Option Function MvccTrx Db

variable {trx : MvccTrx}

theorem pending_running (looping : trx.endLoop = .none) :
    trx.pending = trx.operations := by
  simp [pending, looping]

variable {commitXid : Int} {rest : List Operation}

theorem pending_committing (loop : trx.endLoop = .commit commitXid rest) : trx.pending = rest := by
  simp [pending, loop]

theorem pending_rolling_back (loop : trx.endLoop = .rollback rest) : trx.pending = rest := by
  simp [pending, loop]

theorem pending_append (looping : trx.endLoop = .none) (operation : Operation) :
    ({ trx with operations := trx.operations ++ [operation] } : MvccTrx).pending =
      trx.pending ++ [operation] := by
  simp [pending, looping]

def MvccTrx.rollingBack (trx : MvccTrx) : Prop :=
  ∃ rest, trx.endLoop = .rollback rest

def MvccTrx.committingAs (trx : MvccTrx) (commitXid : Int) : Prop :=
  ∃ rest, trx.endLoop = .commit commitXid rest

variable {operation : Operation}

theorem mem_rest {other : Operation} (pending : trx.pending = operation :: rest)
    (different : other ≠ operation) (ahead : other ∈ trx.pending) : other ∈ rest := by
  rw [pending] at ahead
  exact (mem_cons.mp ahead).resolve_left different

theorem mem_rest_elsewhere (pending : trx.pending = operation :: rest) (other : Operation)
    (elsewhere : other.rid ≠ operation.rid) : other ∈ trx.pending → other ∈ rest :=
  mem_rest pending (by rintro rfl; exact elsewhere rfl)

variable {state : Tracked} {handle : Nat}

theorem running_of_pending (ids : IdsConsistent state)
    (ahead : operation ∈ (state.db.trxs handle).pending) :
    0 < (state.db.trxs handle).trxId := by
  rcases (ids.trx handle).idLow with idle | running
  · simp [((ids.trx handle).unstarted idle).2] at ahead
  · exact running

theorem idle_of_unstarted (ids : IdsConsistent state)
    (unstarted : ¬(state.db.trxs handle).started = true)
    (looping : (state.db.trxs handle).endLoop = .none) :
    (state.db.trxs handle).trxId = -1 := by
  rcases (ids.trx handle).idLow with idle | running
  · exact idle
  · rcases (ids.trx handle).runningLoop running with started | ending
    · exact absurd started unstarted
    · exact absurd looping ending

theorem commit_id_positive (ids : IdsConsistent state) (running : 0 < (state.db.trxs handle).trxId)
    (committing : (state.db.trxs handle).committingAs commitXid) :
    0 < commitXid ∧ state.history.commits (state.db.trxs handle).trxId = some commitXid := by
  obtain ⟨rest, loop⟩ := committing
  have drawn := (ids.trx handle).committing commitXid rest running loop
  have bound := ids.commitBound _ _ drawn
  exact ⟨by omega, drawn⟩

theorem committing_head (ids : IdsConsistent state)
    (loop : (state.db.trxs handle).endLoop = .commit commitXid (operation :: rest)) :
    operation ∈ (state.db.trxs handle).pending ∧ 0 < commitXid ∧
      state.history.commits (state.db.trxs handle).trxId = some commitXid := by
  have ahead := pending_committing loop ▸ mem_cons_self
  exact ⟨ahead, commit_id_positive ids (running_of_pending ids ahead) ⟨rest.cons operation, loop⟩⟩

variable {action : Action}

def Record.stamp (record : Record) : OperationType → Int
  | .insert => record.beginXid
  | .delete => record.endXid

theorem commit_operation_frame (db : Db) (commitXid : Int) {place : Rid}
    (there : place ≠ operation.rid) :
    (db.commitOperation commitXid operation).records place = db.records place := by
  unfold commitOperation
  split <;> simp [there]

theorem rollback_operation_frame (db : Db) {place : Rid} (there : place ≠ operation.rid) :
    (db.rollbackOperation operation).records place = db.records place := by
  unfold rollbackOperation
  split <;> simp [there]

variable {db : Db} {record : Record}

theorem commit_operation_stamp
    (stored : (db.commitOperation commitXid operation).records operation.rid = some record) :
    record.stamp operation.type = commitXid ∧ ∃ old, db.records operation.rid = some old ∧
      ∀ type, type ≠ operation.type → old.stamp type = record.stamp type := by
  obtain ⟨type, rid⟩ := operation
  cases type
  all_goals
    simp only [commitOperation, update_record_records, update_self] at stored
    obtain ⟨old, before, rfl⟩ := map_eq_some_iff.mp stored
    refine ⟨rfl, old, before, fun other different => ?_⟩
    cases other <;> first | rfl | exact absurd rfl different

/-- What happens to the stamps when the object `handle` becomes `trx`: a stamp
is settled, the mark of one of its operations, or as it was. -/
def StampChange (db next : Db) (handle : Nat) (trx : MvccTrx) : Prop :=
  ∀ type rid record, next.records rid = some record → 0 ≤ record.stamp type ∨
    (record.stamp type = -trx.trxId ∧ ⟨type, rid⟩ ∈ trx.pending) ∨
    ∃ old, db.records rid = some old ∧ old.stamp type = record.stamp type ∧
      (⟨type, rid⟩ ∈ (db.trxs handle).pending → ⟨type, rid⟩ ∈ trx.pending)

variable {next : Db}

theorem stamp_change_same_records (records : next.records = db.records)
    (keeps : ∀ operation ∈ (db.trxs handle).pending, operation ∈ trx.pending) :
    StampChange db next handle trx :=
  fun _ _ record stored => .inr (.inr ⟨record, records ▸ stored, rfl, keeps _⟩)

theorem stamp_change_write (operation : Operation)
    (frame : ∀ place, place ≠ operation.rid → next.records place = db.records place)
    (written : ∀ record, next.records operation.rid = some record →
      (0 ≤ record.stamp operation.type ∨
        record.stamp operation.type = -trx.trxId ∧ operation ∈ trx.pending) ∧
      ∀ type, type ≠ operation.type → 0 ≤ record.stamp type ∨
        ∃ old, db.records operation.rid = some old ∧ old.stamp type = record.stamp type)
    (keeps : ∀ other ∈ (db.trxs handle).pending, other ≠ operation → other ∈ trx.pending) :
    StampChange db next handle trx := by
  intro type rid record stored
  by_cases here : rid = operation.rid
  · subst here
    obtain ⟨own, others⟩ := written record stored
    by_cases same : type = operation.type
    · subst same
      rcases own with settled | open_
      · exact .inl settled
      · exact .inr (.inl open_)
    · rcases others type same with settled | ⟨old, before, kept⟩
      · exact .inl settled
      · refine .inr (.inr ⟨old, before, kept, fun ahead => keeps _ ahead ?_⟩)
        exact fun equal => same (congrArg Operation.type equal)
  · rw [frame rid here] at stored
    refine .inr (.inr ⟨record, stored, rfl, fun ahead => keeps _ ahead ?_⟩)
    exact fun equal => here (congrArg Operation.rid equal)

inductive StampStep (db next : Db) (action : Action) (trx : MvccTrx) : Prop
  | keeps (change : StampChange db next action.handle trx)
      (id : trx.trxId = (db.trxs action.handle).trxId)
      (current : next.currentTrxId = db.currentTrxId ∨
        next.currentTrxId = nextTrxId db.currentTrxId)
  | draws (acts : action = .startIfNeed action.handle)
      (unstarted : (db.trxs action.handle).started = false)
      (looping : (db.trxs action.handle).endLoop = .none)
      (records : next.records = db.records)
      (id : trx.trxId = nextTrxId db.currentTrxId)
      (current : next.currentTrxId = nextTrxId db.currentTrxId)
  | drops (records : next.records = db.records) (id : trx = {})
      (current : next.currentTrxId = db.currentTrxId)
      (idle : (db.trxs action.handle).pending = [] ∨ action = .destroyTrx action.handle)

theorem stamp_step {next : Tracked} (startedLoop : ∀ handle, (state.db.trxs handle).started = true →
      (state.db.trxs handle).endLoop = .none)
    (commitIds : ∀ handle commitXid operation rest,
      (state.db.trxs handle).endLoop = .commit commitXid (operation :: rest) → 0 ≤ commitXid)
    (taken : trackedStep state action = some next) :
    ∃ trx, next.db.trxs = update state.db.trxs action.handle trx ∧
      StampStep state.db next.db action trx := by
  cases transition_of_step taken with
  | keep =>
    refine ⟨state.db.trxs action.handle, (update_eq_self ..).symm, ?_⟩
    exact .keeps (stamp_change_same_records rfl fun _ ahead => ahead) rfl (.inl rfl)
  | @start handle looping unstarted =>
    exact ⟨_, rfl, .draws rfl (Bool.eq_false_iff.mpr unstarted) looping rfl rfl rfl⟩
  | @insert handle rid started free =>
    have looping := startedLoop handle started
    refine ⟨_, rfl, .keeps (stamp_change_write ⟨.insert, rid⟩ ?_ ?_ ?_) rfl (.inl rfl)⟩
    · intro place there
      simp [insertRecord, there]
    · intro record stored
      obtain rfl : ⟨-(state.db.trxs handle).trxId, maxTrxId⟩ = record := by
        simpa [insertRecord] using stored
      refine ⟨.inr ⟨rfl, ?_⟩, fun type other => ?_⟩
      · simp [pending_append looping]
      · cases type with
        | insert => exact absurd rfl other
        | delete => exact .inl (show 0 ≤ maxTrxId by decide)
    · intro other ahead _
      rw [pending_append looping]
      exact mem_append_left _ ahead
  | @delete handle rid record started stored visited =>
    have looping := startedLoop handle started
    refine ⟨_, congrArg (update · handle _) (update_record_trxs ..),
      .keeps (stamp_change_write ⟨.delete, rid⟩ ?_ ?_ ?_) rfl (.inl (by simp))⟩
    · intro place there
      simp [there]
    · intro written after
      obtain rfl : { record with endXid := -(state.db.trxs handle).trxId } = written := by
        simpa [stored] using after
      refine ⟨.inr ⟨rfl, ?_⟩, fun type other => ?_⟩
      · simp [pending_append looping]
      · cases type with
        | insert => exact .inr ⟨record, stored, rfl⟩
        | delete => exact absurd rfl other
    · intro other ahead _
      rw [pending_append looping]
      exact mem_append_left _ ahead
  | @commit handle looping =>
    refine ⟨_, rfl, .keeps (stamp_change_same_records rfl ?_) rfl (.inr rfl)⟩
    exact fun operation ahead => pending_running looping ▸ ahead
  | @commitNext handle commitXid operation rest loop =>
    have nonneg := commitIds handle commitXid operation rest loop
    refine ⟨_, congrArg (update · handle _) (commit_operation_trxs ..),
      .keeps (stamp_change_write operation ?_ ?_ ?_) rfl (.inl (by simp))⟩
    · exact fun place => commit_operation_frame state.db commitXid
    · intro record stored
      obtain ⟨stamped, old, before, kept⟩ := commit_operation_stamp stored
      refine ⟨.inl (by omega), fun type other => ?_⟩
      exact .inr ⟨old, before, kept type other⟩
    · exact fun _ ahead different => mem_rest (pending_committing loop) different ahead
  | @commitEnd handle commitXid loop =>
    exact ⟨_, rfl, .drops rfl rfl rfl (.inl (pending_committing loop))⟩
  | @rollback handle looping =>
    refine ⟨_, rfl, .keeps (stamp_change_same_records rfl ?_) rfl (.inl rfl)⟩
    exact fun operation ahead => mem_reverse.mpr (pending_running looping ▸ ahead)
  | @rollbackInsert handle rid rest loop =>
    refine ⟨_, congrArg (update · handle _) (rollback_operation_trxs ..),
      .keeps (stamp_change_write ⟨.insert, rid⟩ ?_ ?_ ?_) rfl (.inl (by simp))⟩
    · exact fun place => rollback_operation_frame state.db
    · intro record stored
      simp [rollbackOperation] at stored
    · exact fun _ ahead different => mem_rest (pending_rolling_back loop) different ahead
  | @rollbackDelete handle rid rest loop =>
    refine ⟨_, congrArg (update · handle _) (rollback_operation_trxs ..),
      .keeps (stamp_change_write ⟨.delete, rid⟩ ?_ ?_ ?_) rfl (.inl (by simp))⟩
    · exact fun place => rollback_operation_frame state.db
    · intro record stored
      simp only [rollbackOperation, setTrx_records, update_record_records,
        update_self] at stored
      obtain ⟨old, before, rfl⟩ := map_eq_some_iff.mp stored
      refine ⟨.inl (show 0 ≤ maxTrxId by decide), fun type other => ?_⟩
      cases type with
      | insert => exact .inr ⟨old, before, rfl⟩
      | delete => exact absurd rfl other
    · exact fun _ ahead different => mem_rest (pending_rolling_back loop) different ahead
  | @rollbackEnd handle loop =>
    exact ⟨_, rfl, .drops rfl rfl rfl (.inl (pending_rolling_back loop))⟩
  | destroy looping => exact ⟨_, rfl, .drops rfl rfl rfl (.inr rfl)⟩

theorem stamp_step_of_ids {next : Tracked} (ids : IdsConsistent state)
    (taken : trackedStep state action = some next) :
    ∃ trx, next.db.trxs = update state.db.trxs action.handle trx ∧
      StampStep state.db next.db action trx := by
  refine stamp_step (fun handle started => ((ids.trx handle).startedLoop started).1) ?_ taken
  intro handle commitXid operation rest loop
  exact Int.le_of_lt (committing_head ids loop).2.1

/-- A stamp with the negated id of a living transaction is an operation that
this transaction has not settled yet. -/
structure StampsOwned (db : Db) : Prop where
  bound : ∀ type rid record, db.records rid = some record →
    -db.currentTrxId ≤ record.stamp type
  ahead : ∀ handle type rid record, db.records rid = some record →
    0 < (db.trxs handle).trxId → record.stamp type = -(db.trxs handle).trxId →
    ⟨type, rid⟩ ∈ (db.trxs handle).pending

theorem stamps_owned_empty : StampsOwned empty where
  bound := nofun
  ahead := nofun

theorem stamps_owned_keeps (ids : IdsConsistent state) (owned : StampsOwned state.db)
    (trxs : next.trxs = update state.db.trxs handle trx)
    (grows : state.db.currentTrxId ≤ next.currentTrxId)
    (id : trx.trxId = (state.db.trxs handle).trxId)
    (change : StampChange state.db next handle trx) : StampsOwned next := by
  have low := ids.counterLow
  have high := (ids.trx handle).idHigh
  constructor
  · intro type rid record stored
    rcases change type rid record stored with settled | ⟨own, -⟩ | ⟨old, before, same, -⟩
    · omega
    · omega
    · have := owned.bound type rid old before
      omega
  · intro other type rid record stored
    rw [trxs, update_apply]
    split
    · intro running begun
      rcases change type rid record stored with settled | ⟨-, ahead⟩ | ⟨old, before, same, keeps⟩
      · omega
      · exact ahead
      · rw [id] at running begun
        exact keeps (owned.ahead handle type rid old before running (same.trans begun))
    · rename_i different
      intro running begun
      have apart : (state.db.trxs other).trxId ≠ (state.db.trxs handle).trxId := fun same =>
        different (ids.idUnique other handle running same)
      rcases change type rid record stored with settled | ⟨own, -⟩ | ⟨old, before, same, -⟩
      · omega
      · omega
      · exact owned.ahead other type rid old before running (same.trans begun)

theorem stamps_owned_unused
    (owned : StampsOwned db) (trxs : next.trxs = update db.trxs handle trx)
    (records : next.records = db.records) (grows : db.currentTrxId ≤ next.currentTrxId)
    (unused : trx.trxId ≤ 0 ∨ db.currentTrxId < trx.trxId) : StampsOwned next := by
  constructor
  · intro type rid record stored
    have := owned.bound type rid record (records ▸ stored)
    omega
  · intro other type rid record stored
    rw [records] at stored
    rw [trxs, update_apply]
    split
    · intro running begun
      have := owned.bound type rid record stored
      omega
    · exact owned.ahead other type rid record stored

theorem stamps_owned_step {next : Tracked} (ids : IdsConsistent state)
    (owned : StampsOwned state.db) (met : CounterFits state.db action)
    (taken : trackedStep state action = some next) : StampsOwned next.db := by
  have low := ids.counterLow
  have grows := (ids_after_step low met taken).1
  obtain ⟨trx, trxs, effect⟩ := stamp_step_of_ids ids taken
  cases effect with
  | keeps change id current => exact stamps_owned_keeps ids owned trxs grows id change
  | draws acts unstarted looping records id current =>
    rw [acts] at met
    have drawn := next_trx_id_eq low met
    exact stamps_owned_unused owned trxs records grows (.inr (by omega))
  | drops records id current idle =>
    exact stamps_owned_unused owned trxs records grows (.inl (id ▸ by decide))

/-- The operations ahead stand in the order of the statements, or in the
reverse order once the transaction rolls back. -/
def MvccTrx.ordered (trx : MvccTrx) : Prop :=
  match trx.endLoop with
  | .none => trx.operations.Pairwise InsertFirst
  | .commit _ rest => rest.Pairwise InsertFirst
  | .rollback rest => rest.Pairwise fun later earlier => InsertFirst earlier later

/-- How the slot shows an operation ahead of `trx`. A transaction may delete its own row several
times, so its end loop can have gone over one of these deletes already. -/
def Shows (trx : MvccTrx) (record : Record) (rid : Rid) : OperationType → Prop
  | .insert => record.beginXid = -trx.trxId
  | .delete =>
    (⟨.insert, rid⟩ ∈ trx.pending ∧ (record.endXid = -trx.trxId ∨ trx.rollingBack)) ∨
    (0 ≤ record.beginXid ∧ record.endXid = -trx.trxId) ∨
    ∃ commitXid, trx.committingAs commitXid ∧ record = ⟨commitXid, commitXid⟩

structure PendingShown (records : Rid → Option Record) (trx : MvccTrx) : Prop where
  ordered : trx.ordered
  shown : ∀ type rid, ⟨type, rid⟩ ∈ trx.pending →
    ∃ record, records rid = some record ∧ Shows trx record rid type
  repeated : ∀ rid, 2 ≤ trx.pending.count ⟨.delete, rid⟩ →
    ⟨.insert, rid⟩ ∈ trx.pending ∨
      ∃ commitXid record, trx.committingAs commitXid ∧ records rid = some record ∧
        record.beginXid = commitXid

def MvccTrx.touches (trx : MvccTrx) (rid : Rid) : Prop :=
  ∃ type, ⟨type, rid⟩ ∈ trx.pending

structure PendingConsistent (db : Db) : Prop where
  trx : ∀ handle, PendingShown db.records (db.trxs handle)
  exclusive : ∀ handle other rid, (db.trxs handle).touches rid → (db.trxs other).touches rid →
    handle = other

variable {records : Rid → Option Record}

theorem pending_shown_idle (idle : trx.pending = []) : PendingShown records trx where
  ordered := by
    unfold pending at idle
    unfold ordered
    split <;> simp_all
  shown := by simp [idle]
  repeated := by simp [idle]

theorem pending_shown_frame {next : Rid → Option Record} (shows : PendingShown records trx)
    (same : ∀ rid, trx.touches rid → next rid = records rid) : PendingShown next trx where
  ordered := shows.ordered
  shown := by
    intro type rid ahead
    rw [same rid ⟨type, ahead⟩]
    exact shows.shown type rid ahead
  repeated := by
    intro rid twice
    have ahead : ⟨.delete, rid⟩ ∈ trx.pending := count_pos_iff.mp (by omega)
    rw [same rid ⟨.delete, ahead⟩]
    exact shows.repeated rid twice

theorem pending_consistent_empty : PendingConsistent empty where
  trx := fun _ => pending_shown_idle rfl
  exclusive := by simp [touches, pending, empty]

variable {rid : Rid}

theorem untouched_of_free (consistent : PendingConsistent db)
    (free : db.records rid = none) (handle : Nat) : ¬(db.trxs handle).touches rid := by
  rintro ⟨type, ahead⟩
  obtain ⟨record, stored, -⟩ := (consistent.trx handle).shown type rid ahead
  rw [free] at stored
  cases stored

theorem visit_read_write_success {trxId : Int}
    (visited : visitRecord trxId record .readWrite = .success) :
    (record.beginXid ≤ trxId ∧ trxId ≤ record.endXid ∧ 0 < record.beginXid) ∨
      (record.beginXid = -trxId ∧ record.beginXid < 0) ∨
      (0 ≤ record.beginXid ∧ 0 ≤ record.endXid ∧ (record.beginXid = 0 ∨ record.endXid = 0)) := by
  unfold visitRecord at visited
  split_ifs at visited <;> grind -linarith

theorem untouched_of_deletable (ids : IdsConsistent state) (consistent : PendingConsistent state.db)
    (started : (state.db.trxs handle).started = true)
    (stored : state.db.records rid = some record)
    (visited : visitRecord (state.db.trxs handle).trxId record .readWrite = .success)
    (other : Nat) (different : other ≠ handle) : ¬(state.db.trxs other).touches rid := by
  rintro ⟨type, ahead⟩
  have running := running_of_pending ids ahead
  have distinct : (state.db.trxs other).trxId ≠ (state.db.trxs handle).trxId := fun same =>
    different (ids.idUnique other handle running same)
  have acting := ((ids.trx handle).startedLoop started).2
  have admitted := visit_read_write_success visited
  -- An insert ahead hides the row from everybody else.
  have notInserted : record.beginXid ≠ -(state.db.trxs other).trxId := by
    intro inserted
    omega
  obtain ⟨found, same, shows⟩ := (consistent.trx other).shown type rid ahead
  obtain rfl : found = record := some.inj (same.symm.trans stored)
  cases type with
  | insert => exact notInserted shows
  | delete =>
    rcases shows with ⟨inserted, -⟩ | ⟨nonneg, deleting⟩ | ⟨commitXid, committing, rfl⟩
    · obtain ⟨again, sameAgain, begun⟩ := (consistent.trx other).shown .insert rid inserted
      obtain rfl : again = found := some.inj (sameAgain.symm.trans stored)
      exact notInserted begun
    · omega
    · have drawn := commit_id_positive ids running committing
      have notCommitId := (ids.trx handle).notCommitId (state.db.trxs other).trxId
      rw [drawn.2] at notCommitId
      have apart : commitXid ≠ (state.db.trxs handle).trxId := fun same =>
        notCommitId (congrArg some same)
      simp only at admitted
      omega

section Steps

variable {final : Tracked} {row : Option RowHistory} {written : Option Record}
  (ids : IdsConsistent state) (consistent : PendingConsistent state.db)
include ids consistent

theorem untouched_of_change (change : SlotStep state rid action written row) (other : Nat)
    (different : other ≠ action.handle) : ¬(state.db.trxs other).touches rid := by
  intro touched
  have apart : ∀ type, ⟨type, rid⟩ ∉ (state.db.trxs action.handle).pending := fun type ahead =>
    different (consistent.exclusive other action.handle rid touched ⟨type, ahead⟩)
  cases change with
  | insert started free => exact untouched_of_free consistent free other touched
  | delete started stored visited =>
    exact untouched_of_deletable ids consistent started stored visited other different touched
  | commitInsert loop | commitDelete loop => exact apart _ (pending_committing loop ▸ mem_cons_self)
  | rollbackInsert loop | rollbackDelete loop =>
    exact apart _ (pending_rolling_back loop ▸ mem_cons_self)

variable (taken : trackedStep state action = some final)
include taken

/-- A step writes to no slot on which another transaction has an operation ahead, so what the
slots show of the operations ahead has to be checked for the acting object only. -/
theorem objects_step {Shown : (Rid → Option Record) → MvccTrx → Prop}
    (frame : ∀ {records next : Rid → Option Record} {trx : MvccTrx}, Shown records trx →
      (∀ rid, trx.touches rid → next rid = records rid) → Shown next trx)
    (shown : ∀ handle, Shown state.db.records (state.db.trxs handle))
    (own : ∃ trx, final.db.trxs = update state.db.trxs action.handle trx ∧
      Shown final.db.records trx) (handle : Nat) :
    Shown final.db.records (final.db.trxs handle) := by
  obtain ⟨trx, trxs, shownOwn⟩ := own
  rw [trxs, update_apply]
  split
  · exact shownOwn
  · rename_i different
    refine frame (shown handle) fun rid touched => ?_
    rcases slot_step taken rid with same | change
    · exact same.1
    · exact absurd touched (untouched_of_change ids consistent change handle different)

end Steps

variable {type : OperationType}

theorem shows_frame {after : MvccTrx}
    (shows : Shows trx record rid type) (id : after.trxId = trx.trxId)
    (keeps : ⟨.insert, rid⟩ ∈ trx.pending → ⟨.insert, rid⟩ ∈ after.pending)
    (committing : ∀ commitXid, trx.committingAs commitXid → after.committingAs commitXid)
    (rolling : trx.rollingBack → after.rollingBack) : Shows after record rid type := by
  cases type with
  | insert => exact shows.trans (congrArg Neg.neg id.symm)
  | delete =>
    rcases shows with ⟨inserted, deleting⟩ | deleting | ⟨commitXid, loop, stamped⟩
    · exact .inl ⟨keeps inserted, deleting.imp (id ▸ ·) rolling⟩
    · exact .inr (.inl (id ▸ deleting))
    · exact .inr (.inr ⟨commitXid, committing commitXid loop, stamped⟩)

theorem pending_shown_append {next : Rid → Option Record} (shows : PendingShown records trx)
    (looping : trx.endLoop = .none)
    (frame : ∀ place, place ≠ rid → next place = records place)
    (stored : next rid = some record)
    (here : ∀ kind, ⟨kind, rid⟩ ∈ trx.pending ++ [⟨type, rid⟩] →
      Shows { trx with operations := trx.operations ++ [⟨type, rid⟩] } record rid kind)
    (first : type = .insert → ¬trx.touches rid)
    (twice : type = .delete → ⟨.delete, rid⟩ ∈ trx.pending → ⟨.insert, rid⟩ ∈ trx.pending) :
    PendingShown next { trx with operations := trx.operations ++ [⟨type, rid⟩] } := by
  have pending := pending_append looping ⟨type, rid⟩
  constructor
  · have ordered := shows.ordered
    simp only [MvccTrx.ordered, looping] at ordered ⊢
    refine pairwise_append.mpr ⟨ordered, pairwise_singleton _ _, ?_⟩
    rintro ⟨kind, place⟩ ahead later last inserting same
    obtain rfl := mem_singleton.mp last
    obtain rfl : place = rid := same
    exact first inserting ⟨kind, pending_running looping ▸ ahead⟩
  · intro kind place ahead
    rw [pending] at ahead
    by_cases there : place = rid
    · subst there
      exact ⟨record, stored, here kind ahead⟩
    · have old : ⟨kind, place⟩ ∈ trx.pending := by
        simpa [there] using ahead
      obtain ⟨found, same, shown⟩ := shows.shown kind place old
      refine ⟨found, (frame place there).trans same, ?_⟩
      refine shows_frame shown rfl ?_ (fun _ loop => loop) (fun rolling => rolling)
      exact fun inserted => pending ▸ mem_append_left _ inserted
  · intro place many
    rw [pending] at many ⊢
    suffices inserted : ⟨.insert, place⟩ ∈ trx.pending from
      .inl (mem_append_left _ inserted)
    rw [count_append, count_singleton] at many
    split at many
    · rename_i again
      obtain ⟨rfl, rfl⟩ := Operation.mk.inj (eq_of_beq again)
      exact twice rfl (count_pos_iff.mp (by omega))
    · rcases shows.repeated place many with inserted | ⟨_, _, ⟨_, loop⟩, -⟩
      · exact inserted
      · simp [looping] at loop

theorem touches_append (looping : trx.endLoop = .none) {place : Rid}
    (touched : ({ trx with operations := trx.operations ++ [⟨type, rid⟩] } : MvccTrx).touches place) :
    trx.touches place ∨ place = rid := by
  obtain ⟨kind, ahead⟩ := touched
  rw [pending_append looping] at ahead
  rcases mem_append.mp ahead with old | last
  · exact .inl ⟨kind, old⟩
  · exact .inr (Operation.mk.inj (mem_singleton.mp last)).2

structure Advances (trx after : MvccTrx) (operation : Operation) : Prop where
  pending : trx.pending = operation :: after.pending
  id : after.trxId = trx.trxId
  ordered : after.ordered
  committing : ∀ commitXid, trx.committingAs commitXid → after.committingAs commitXid
  rolling : trx.rollingBack → after.rollingBack

theorem pending_shown_advance {next : Rid → Option Record} {after : MvccTrx}
    (shows : PendingShown records trx) (advances : Advances trx after operation)
    (frame : ∀ place, place ≠ operation.rid → next place = records place)
    (here : ∀ kind, ⟨kind, operation.rid⟩ ∈ after.pending →
      ∃ record, next operation.rid = some record ∧ Shows after record operation.rid kind)
    (twice : 2 ≤ after.pending.count ⟨.delete, operation.rid⟩ →
      ⟨.insert, operation.rid⟩ ∈ after.pending ∨ ∃ commitXid record,
        after.committingAs commitXid ∧ next operation.rid = some record ∧
          record.beginXid = commitXid) :
    PendingShown next after := by
  obtain ⟨pending, id, ordered, committing, rolling⟩ := advances
  refine ⟨ordered, fun kind place ahead => ?_, fun place many => ?_⟩
  · by_cases there : place = operation.rid
    · exact there ▸ here kind (there ▸ ahead)
    · obtain ⟨record, stored, shown⟩ :=
        shows.shown kind place (pending ▸ mem_cons_of_mem _ ahead)
      refine ⟨record, (frame place there).trans stored, ?_⟩
      exact shows_frame shown id (mem_rest_elsewhere pending _ there) committing rolling
  · by_cases there : place = operation.rid
    · exact there ▸ twice (there ▸ many)
    · have before : 2 ≤ trx.pending.count ⟨.delete, place⟩ := by
        rw [pending]
        exact Nat.le_trans many count_le_count_cons
      rcases shows.repeated place before with inserted | ⟨commitXid, record, loop, stored, begun⟩
      · exact .inl (mem_rest_elsewhere pending _ there inserted)
      · exact .inr ⟨commitXid, record, committing commitXid loop,
          (frame place there).trans stored, begun⟩

theorem pending_shown_insert
    (consistent : PendingConsistent db) (looping : (db.trxs handle).endLoop = .none)
    (free : db.records rid = none) :
    PendingShown (update db.records rid (some ⟨-(db.trxs handle).trxId, maxTrxId⟩))
      { db.trxs handle with operations := (db.trxs handle).operations ++ [⟨.insert, rid⟩] } := by
  have untouched := untouched_of_free consistent free handle
  apply pending_shown_append (consistent.trx handle) looping
  · exact fun place there => update_of_ne there _ _
  · exact update_self ..
  · intro kind ahead
    rcases mem_append.mp ahead with old | last
    · exact absurd ⟨kind, old⟩ untouched
    · obtain ⟨rfl, -⟩ := Operation.mk.inj (mem_singleton.mp last)
      exact rfl
  · exact fun _ => untouched
  · intro same
    cases same

theorem pending_shown_delete (ids : IdsConsistent state) (owned : StampsOwned state.db)
    (consistent : PendingConsistent state.db)
    (started : (state.db.trxs handle).started = true)
    (stored : state.db.records rid = some record)
    (visited : visitRecord (state.db.trxs handle).trxId record .readWrite = .success) :
    PendingShown
      (update state.db.records rid (some { record with endXid := -(state.db.trxs handle).trxId }))
      { state.db.trxs handle with
        operations := (state.db.trxs handle).operations ++ [⟨.delete, rid⟩] } := by
  obtain ⟨looping, acting⟩ := (ids.trx handle).startedLoop started
  have admitted := visit_read_write_success visited
  have pending := pending_append looping ⟨.delete, rid⟩
  apply pending_shown_append (consistent.trx handle) looping
  · exact fun place there => update_of_ne there _ _
  · exact update_self ..
  · intro kind ahead
    cases kind with
    | insert =>
      have inserted : ⟨.insert, rid⟩ ∈ (state.db.trxs handle).pending := by
        simpa using ahead
      obtain ⟨found, same, shows⟩ := (consistent.trx handle).shown .insert rid inserted
      exact some.inj (same.symm.trans stored) ▸ shows
    | delete =>
      -- The row is its own insert, or a row with a settled begin stamp.
      by_cases settled : 0 ≤ record.beginXid
      · exact .inr (.inl ⟨settled, rfl⟩)
      · have begun : record.beginXid = -(state.db.trxs handle).trxId := by
          omega
        have inserted := owned.ahead handle .insert rid record stored acting begun
        exact .inl ⟨pending ▸ mem_append_left _ inserted, .inl rfl⟩
  · nofun
  · intro _ deleted
    obtain ⟨found, same, shows⟩ := (consistent.trx handle).shown .delete rid deleted
    obtain rfl : found = record := some.inj (same.symm.trans stored)
    rcases shows with ⟨inserted, -⟩ | ⟨settled, deleting⟩ | ⟨_, ⟨_, loop⟩, -⟩
    · exact inserted
    · omega
    · simp [looping] at loop

theorem two_le_count (pending : trx.pending = operation :: rest) (ahead : operation ∈ rest) :
    2 ≤ trx.pending.count operation := by
  rw [pending, count_cons_self]
  exact Nat.succ_le_succ (count_pos_iff.mpr ahead)

section Loops

variable {next : Rid → Option Record}

section

variable (shows : PendingShown records trx)
include shows

theorem pending_shown_end {after : EndLoop} (looping : trx.endLoop = .none)
    (same : ({ trx with started := false, endLoop := after } : MvccTrx).pending.Perm trx.pending)
    (ordered : trx.operations.Pairwise InsertFirst →
      ({ trx with started := false, endLoop := after } : MvccTrx).ordered) :
    PendingShown records { trx with started := false, endLoop := after } := by
  have before := shows.ordered
  simp only [MvccTrx.ordered, looping] at before
  have notCommitting : ∀ commitXid, ¬trx.committingAs commitXid := by
    simp [committingAs, looping]
  have notRolling : ¬trx.rollingBack := by
    simp [rollingBack, looping]
  constructor
  · exact ordered before
  · intro kind place ahead
    obtain ⟨record, stored, shown⟩ := shows.shown kind place (same.mem_iff.mp ahead)
    refine ⟨record, stored, shows_frame shown rfl ?_ ?_ ?_⟩
    · exact same.mem_iff.mpr
    · exact fun commitXid committing => absurd committing (notCommitting commitXid)
    · exact fun rolling => absurd rolling notRolling
  · intro place twice
    rcases shows.repeated place (same.count_eq _ ▸ twice) with inserted | ⟨c, _, committing, -⟩
    · exact .inl (same.mem_iff.mpr inserted)
    · exact absurd committing (notCommitting c)

theorem delete_of_later
    (loop : trx.endLoop = .commit commitXid (operation :: rest)) {kind : OperationType}
    (ahead : ⟨kind, operation.rid⟩ ∈ rest) : kind = .delete := by
  have ordered := shows.ordered
  simp only [MvccTrx.ordered, loop] at ordered
  cases kind with
  | insert =>
    have different := (pairwise_cons.mp ordered).1 ⟨.insert, operation.rid⟩ ahead rfl
    exact absurd rfl different
  | delete => rfl

theorem advances_commit (loop : trx.endLoop = .commit commitXid (operation :: rest)) :
    Advances trx { trx with endLoop := .commit commitXid rest } operation := by
  have ordered := shows.ordered
  simp only [MvccTrx.ordered, loop] at ordered
  refine ⟨pending_committing loop, rfl, (pairwise_cons.mp ordered).2, ?_, ?_⟩
  · rintro other ⟨_, again⟩
    rw [loop] at again
    exact ⟨rest, by rw [(EndLoop.commit.inj again).1]⟩
  · rintro ⟨_, again⟩
    simp [loop] at again

theorem advances_rollback (loop : trx.endLoop = .rollback (operation :: rest)) :
    Advances trx { trx with endLoop := .rollback rest } operation := by
  have ordered := shows.ordered
  simp only [MvccTrx.ordered, loop] at ordered
  refine ⟨pending_rolling_back loop, rfl, (pairwise_cons.mp ordered).2, ?_, fun _ => ⟨rest, rfl⟩⟩
  rintro other ⟨_, again⟩
  simp [loop] at again

theorem pending_shown_commit_insert (running : 0 < trx.trxId)
    (positive : 0 < commitXid) (loop : trx.endLoop = .commit commitXid (⟨.insert, rid⟩ :: rest))
    (frame : ∀ place, place ≠ rid → next place = records place)
    (written : next rid = (records rid).map fun record => { record with beginXid := commitXid }) :
    PendingShown next { trx with endLoop := .commit commitXid rest } := by
  have pending := pending_committing loop
  obtain ⟨record, stored, begun⟩ := shows.shown .insert rid (pending ▸ mem_cons_self)
  rw [stored] at written
  apply pending_shown_advance shows (advances_commit shows loop) frame
  · intro kind ahead
    obtain rfl := delete_of_later shows loop ahead
    obtain ⟨found, same, shown⟩ := shows.shown .delete rid
      (pending ▸ mem_cons_of_mem _ ahead)
    obtain rfl : found = record := some.inj (same.symm.trans stored)
    refine ⟨_, written, .inr (.inl ⟨Int.le_of_lt positive, ?_⟩)⟩
    have insertStamp : found.beginXid = -trx.trxId := begun
    rcases shown with ⟨-, deleting | ⟨_, again⟩⟩ | ⟨settled, -⟩ | ⟨other, ⟨_, again⟩, stamped⟩
    · exact deleting
    · simp [loop] at again
    · omega
    · rw [loop] at again
      rw [stamped] at insertStamp
      obtain ⟨rfl, -⟩ := EndLoop.commit.inj again
      simp only at insertStamp
      omega
  · exact fun _ => .inr ⟨commitXid, _, ⟨rest, rfl⟩, written, rfl⟩

theorem pending_shown_commit_delete
    (loop : trx.endLoop = .commit commitXid (⟨.delete, rid⟩ :: rest))
    (frame : ∀ place, place ≠ rid → next place = records place)
    (written : next rid = (records rid).map fun record => { record with endXid := commitXid }) :
    PendingShown next { trx with endLoop := .commit commitXid rest } := by
  have pending := pending_committing loop
  obtain ⟨record, stored, -⟩ := shows.shown .delete rid (pending ▸ mem_cons_self)
  rw [stored] at written
  -- A second delete ahead means that the loop has stamped the insert of the row.
  have again : ⟨.delete, rid⟩ ∈ rest → record.beginXid = commitXid := by
    intro ahead
    rcases shows.repeated rid (two_le_count pending ahead) with inserted | ⟨other, found, ⟨_, same⟩, foundAt, begun⟩
    · rw [pending] at inserted
      cases delete_of_later shows loop (by simpa using inserted)
    · rw [loop] at same
      rw [some.inj (stored.symm.trans foundAt), begun, (EndLoop.commit.inj same).1]
  apply pending_shown_advance shows (advances_commit shows loop) frame
  · intro kind ahead
    obtain rfl := delete_of_later shows loop ahead
    refine ⟨_, written, .inr (.inr ⟨commitXid, ⟨rest, rfl⟩, ?_⟩)⟩
    exact congrArg (Record.mk · commitXid) (again ahead)
  · intro twice
    have ahead : ⟨.delete, rid⟩ ∈ rest := count_pos_iff.mp (Nat.lt_of_succ_lt twice)
    exact .inr ⟨commitXid, _, ⟨rest, rfl⟩, written, again ahead⟩

theorem pending_shown_rollback_insert (loop : trx.endLoop = .rollback (⟨.insert, rid⟩ :: rest))
    (frame : ∀ place, place ≠ rid → next place = records place) :
    PendingShown next { trx with endLoop := .rollback rest } := by
  have ordered := shows.ordered
  simp only [MvccTrx.ordered, loop] at ordered
  have first := (pairwise_cons.mp ordered).1
  have settled : ∀ kind, ⟨kind, rid⟩ ∉ rest := fun kind ahead => first ⟨kind, rid⟩ ahead rfl rfl
  apply pending_shown_advance shows (advances_rollback shows loop) frame
  · exact fun kind ahead => absurd ahead (settled kind)
  · intro twice
    exact absurd (count_pos_iff.mp (Nat.lt_of_succ_lt twice)) (settled .delete)

theorem pending_shown_rollback_delete (loop : trx.endLoop = .rollback (⟨.delete, rid⟩ :: rest))
    (frame : ∀ place, place ≠ rid → next place = records place)
    (written : next rid = (records rid).map fun record => { record with endXid := maxTrxId }) :
    PendingShown next { trx with endLoop := .rollback rest } := by
  have pending := pending_rolling_back loop
  obtain ⟨record, stored, -⟩ := shows.shown .delete rid (pending ▸ mem_cons_self)
  rw [stored] at written
  have again : ⟨.delete, rid⟩ ∈ rest → ⟨.insert, rid⟩ ∈ rest := by
    intro ahead
    rcases shows.repeated rid (two_le_count pending ahead) with inserted | ⟨_, _, ⟨_, same⟩, -⟩
    · rw [pending] at inserted
      simpa using inserted
    · simp [loop] at same
  apply pending_shown_advance shows (advances_rollback shows loop) frame
  · intro kind ahead
    refine ⟨_, written, ?_⟩
    cases kind with
    | insert =>
      obtain ⟨found, same, begun⟩ := shows.shown .insert rid
        (pending ▸ mem_cons_of_mem _ ahead)
      exact some.inj (same.symm.trans stored) ▸ begun
    | delete => exact .inl ⟨again ahead, .inr ⟨rest, rfl⟩⟩
  · intro twice
    exact .inl (again (count_pos_iff.mp (Nat.lt_of_succ_lt twice)))

end

end Loops

theorem pending_consistent_step {final : Tracked}
    (ids : IdsConsistent state) (owned : StampsOwned state.db)
    (consistent : PendingConsistent state.db)
    (taken : trackedStep state action = some final) : PendingConsistent final.db := by
  obtain ⟨trx, trxs, own, touches⟩ : ∃ trx,
      final.db.trxs = update state.db.trxs action.handle trx ∧ PendingShown final.db.records trx ∧
        ∀ rid, trx.touches rid → (state.db.trxs action.handle).touches rid ∨
          ∃ written row, SlotStep state rid action written row := by
    cases transition_of_step taken with
    | keep => exact ⟨_, (update_eq_self ..).symm, consistent.trx _, fun _ => .inl⟩
    | @start handle looping unstarted =>
      have idle := ((ids.trx handle).unstarted (idle_of_unstarted ids unstarted looping)).2
      exact ⟨_, rfl, pending_shown_idle idle, fun _ => .inl⟩
    | @insert handle rid started free =>
      have looping := ((ids.trx handle).startedLoop started).1
      refine ⟨_, rfl, pending_shown_insert consistent looping free, fun place touched => ?_⟩
      rcases touches_append looping touched with before | rfl
      · exact .inl before
      · exact .inr ⟨_, _, .insert started free⟩
    | @delete handle rid record started stored visited =>
      have looping := ((ids.trx handle).startedLoop started).1
      have shown := pending_shown_delete ids owned consistent started stored visited
      refine ⟨_, congrArg (update · handle _) (update_record_trxs ..), by simpa [stored] using shown,
        fun place touched => ?_⟩
      rcases touches_append looping touched with before | rfl
      · exact .inl before
      · exact .inr ⟨_, _, .delete started stored visited⟩
    | @commit handle looping =>
      have pending := pending_running looping
      refine ⟨_, rfl, pending_shown_end (consistent.trx handle) looping ?_ id,
        fun _ ⟨kind, ahead⟩ => .inl ⟨kind, pending ▸ ahead⟩⟩
      rw [pending]
      exact .refl _
    | @commitNext handle commitXid operation rest loop =>
      have pending := pending_committing loop
      have running := running_of_pending ids (pending ▸ mem_cons_self)
      have positive := (commit_id_positive ids running ⟨_, loop⟩).1
      have frame := @commit_operation_frame operation state.db commitXid
      refine ⟨_, congrArg (update · handle _) (commit_operation_trxs ..), ?_,
        fun _ ⟨kind, ahead⟩ => .inl ⟨kind, pending ▸ mem_cons_of_mem _ ahead⟩⟩
      obtain ⟨type, rid⟩ := operation
      cases type with
      | insert =>
        refine pending_shown_commit_insert (consistent.trx handle) running positive loop
          (fun _ => frame) ?_
        simp [commitOperation]
      | delete =>
        refine pending_shown_commit_delete (consistent.trx handle) loop (fun _ => frame) ?_
        simp [commitOperation]
    | @rollback handle looping =>
      have pending := pending_running looping
      refine ⟨_, rfl, pending_shown_end (consistent.trx handle) looping ?_ pairwise_reverse.mpr,
        fun _ ⟨kind, ahead⟩ => .inl ⟨kind, pending ▸ mem_reverse.mp ahead⟩⟩
      rw [pending]
      exact reverse_perm _
    | @rollbackInsert handle rid rest loop =>
      have frame := @rollback_operation_frame ⟨.insert, rid⟩ state.db
      exact ⟨_, congrArg (update · handle _) (rollback_operation_trxs ..),
        pending_shown_rollback_insert (consistent.trx handle) loop fun _ => frame,
        fun _ ⟨kind, ahead⟩ => .inl ⟨kind, pending_rolling_back loop ▸ mem_cons_of_mem _ ahead⟩⟩
    | @rollbackDelete handle rid rest loop =>
      have frame := @rollback_operation_frame ⟨.delete, rid⟩ state.db
      refine ⟨_, congrArg (update · handle _) (rollback_operation_trxs ..), ?_,
        fun _ ⟨kind, ahead⟩ => .inl ⟨kind, pending_rolling_back loop ▸ mem_cons_of_mem _ ahead⟩⟩
      refine pending_shown_rollback_delete (consistent.trx handle) loop (fun _ => frame) ?_
      simp [rollbackOperation]
    | commitEnd | rollbackEnd | destroy =>
      exact ⟨_, rfl, pending_shown_idle rfl, fun _ ⟨_, ahead⟩ => absurd ahead not_mem_nil⟩
  -- Only the rows of the acting object can be new, and nobody else is there.
  have alone : ∀ other rid, other ≠ action.handle → trx.touches rid →
      ¬(state.db.trxs other).touches rid := by
    intro other rid different touched elsewhere
    rcases touches rid touched with before | ⟨written, row, change⟩
    · exact different (consistent.exclusive other action.handle rid elsewhere before)
    · exact untouched_of_change ids consistent change other different elsewhere
  refine ⟨objects_step ids consistent taken pending_shown_frame consistent.trx ⟨trx, trxs, own⟩, ?_⟩
  intro first second rid
  rw [trxs, update_apply, update_apply]
  split <;> split
  · rename_i one two
    exact fun _ _ => one.trans two.symm
  · rename_i different
    exact fun touched elsewhere => absurd elsewhere (alone second rid different touched)
  · rename_i different _
    exact fun elsewhere touched => absurd elsewhere (alone first rid different touched)
  · exact consistent.exclusive first second rid

structure Accounted (state : Tracked) : Prop where
  ids : IdsConsistent state
  stamps : StampsOwned state.db
  pending : PendingConsistent state.db

theorem accounted_empty : Accounted Tracked.empty where
  ids := ids_consistent_empty
  stamps := stamps_owned_empty
  pending := pending_consistent_empty

theorem accounted_step {next : Tracked} (accounted : Accounted state)
    (met : CounterFits state.db action) (taken : trackedStep state action = some next) :
    Accounted next where
  ids := ids_consistent_step accounted.ids met taken
  stamps := stamps_owned_step accounted.ids accounted.stamps met taken
  pending := pending_consistent_step accounted.ids accounted.stamps accounted.pending taken

end CsuDbms.MvccTrxModel
