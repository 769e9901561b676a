import CsuDbms.MvccTrxPending

/-!
# Rows put into a table by LOAD DATA

`LoadDataExecutor` calls `Table::insert_record` directly, with the record that
`make_record` filled with zeros, so a loaded row has two zero stamps and no
transaction behind it. The transactions then delete it as they delete any row.
A ghost list keeps the successful deletes, and a ghost map the way each
transaction ended.
-/

namespace CsuDbms.MvccTrxModel

open TransitionSystem List Option Function

def loadedRecord : Record := { beginXid := 0, endXid := 0 }

/-- `insert_record_from_file` for one line, into the free slot `rid`. -/
def Db.loadRecord (db : Db) (rid : Rid) : Db :=
  (db.setRecord rid (some loadedRecord)).append [.recordInsert rid loadedRecord]

inductive Ending where
  | committed (commitXid : Int)
  | rolledBack
  deriving DecidableEq, Repr

structure Loading where
  tracked : Tracked
  loaded : Rid → Bool
  deletes : List (Rid × Int)
  endings : Int → Option Ending

def Loading.empty : Loading where
  tracked := .empty
  loaded := fun _ => false
  deletes := []
  endings := fun _ => none

inductive LoadAction where
  | load (rid : Rid)
  | act (action : Action)
  deriving DecidableEq, Repr

def deletesAfter (db : Db) (deletes : List (Rid × Int)) : Action → List (Rid × Int)
  | .deleteRecord handle rid =>
    if (db.deleteRecord handle rid).1 = .success then
      (rid, (db.trxs handle).trxId) :: deletes
    else deletes
  | _ => deletes

def endingOf (db : Db) : Action → Option Ending
  | .commitEnd handle =>
    match (db.trxs handle).endLoop with
    | .commit commitXid _ => some (.committed commitXid)
    | _ => none
  | .rollbackEnd _ => some .rolledBack
  | _ => none

def endingsAfter (db : Db) (endings : Int → Option Ending) (action : Action) :
    Int → Option Ending :=
  match endingOf db action with
  | some ending => update endings (db.trxs action.handle).trxId (some ending)
  | none => endings

def loadStep (state : Loading) : LoadAction → Option Loading
  | .load rid =>
    if state.tracked.db.records rid = none then
      some { state with
        tracked := { state.tracked with db := state.tracked.db.loadRecord rid }
        loaded := update state.loaded rid true }
    else none
  | .act action =>
    (trackedStep state.tracked action).map fun tracked =>
      { tracked := tracked
        loaded := state.loaded
        deletes := deletesAfter state.tracked.db state.deletes action
        endings := endingsAfter state.tracked.db state.endings action }

/-- A row can be deleted unless somebody has; an open delete hides it from its transaction and keeps
the others from deleting it; a committed delete hides it from later ids; and a row whose deletes
were rolled back is there again. -/
structure ObeysMvcc (state : Loading) (rid : Rid) : Prop where
  deletable : ∀ handle, (state.tracked.db.trxs handle).started = true →
    (∀ x, (rid, x) ∈ state.deletes → state.endings x = some .rolledBack) →
    (state.tracked.db.deleteRecord handle rid).1 = .success
  ownDelete : ∀ handle, (state.tracked.db.trxs handle).started = true →
    (rid, (state.tracked.db.trxs handle).trxId) ∈ state.deletes →
    visibleTo state.tracked.db (state.tracked.db.trxs handle).trxId rid = false
  secondDelete : ∀ handle other, (state.tracked.db.trxs handle).started = true →
    (rid, (state.tracked.db.trxs handle).trxId) ∈ state.deletes →
    (state.tracked.db.trxs other).started = true → other ≠ handle →
    (state.tracked.db.deleteRecord other rid).1 ≠ .success
  committedDelete : ∀ x commitXid y, (rid, x) ∈ state.deletes →
    state.endings x = some (.committed commitXid) → commitXid < y →
    visibleTo state.tracked.db y rid = false
  rolledBackDelete : ∀ x y, (rid, x) ∈ state.deletes → state.endings x = some .rolledBack →
    (∀ z commitXid, (rid, z) ∈ state.deletes → state.endings z ≠ some (.committed commitXid)) →
    (rid, y) ∉ state.deletes → visibleTo state.tracked.db y rid = true

def IdsLast (state : Loading) : LoadAction → Prop
  | .load _ => True
  | .act action => CounterFits state.tracked.db action

instance (state : Loading) (action : LoadAction) : Decidable (IdsLast state action) := by
  cases action <;> dsimp only [IdsLast] <;> infer_instance

/-- The stamps of a loaded row: the begin stamp stays zero, and a negative end
stamp names a transaction that deleted the row and has not ended. -/
def LoadedStamps (state : Loading) (rid : Rid) : Prop :=
  ∃ record, state.tracked.db.records rid = some record ∧ record.beginXid = 0 ∧
    (0 ≤ record.endXid ∨
      (rid, -record.endXid) ∈ state.deletes ∧ state.endings (-record.endXid) = none)

structure LoadingConsistent (state : Loading) : Prop where
  accounted : Accounted state.tracked
  drawn : ∀ rid x, (rid, x) ∈ state.deletes → 0 < x ∧ x ≤ state.tracked.db.currentTrxId
  ended : ∀ x ending, state.endings x = some ending → x ≤ state.tracked.db.currentTrxId ∧
    ∀ handle, 0 < x → (state.tracked.db.trxs handle).trxId ≠ x
  ahead : ∀ handle rid, (state.tracked.db.trxs handle).started = true →
    (rid, (state.tracked.db.trxs handle).trxId) ∈ state.deletes →
    ⟨.delete, rid⟩ ∈ (state.tracked.db.trxs handle).pending
  stamps : ∀ rid, state.loaded rid = true → LoadedStamps state rid

theorem loading_consistent_empty : LoadingConsistent Loading.empty where
  accounted := accounted_empty
  drawn := nofun
  ended := nofun
  ahead := nofun
  stamps := nofun

theorem loaded_slots (db : Db) (rid place : Rid) :
    (db.loadRecord rid).records place =
      if place = rid then some loadedRecord else db.records place :=
  update_apply ..

variable {rid : Rid}

theorem accounted_load {state : Tracked} (accounted : Accounted state)
    (free : state.db.records rid = none) :
    Accounted { state with db := state.db.loadRecord rid } := by
  obtain ⟨ids, owned, pending⟩ := accounted
  have zero : ∀ type, loadedRecord.stamp type = 0 := by
    intro type
    cases type <;> rfl
  refine ⟨⟨ids.counterLow, ids.counterHigh, ids.trx, ids.idUnique, ids.commitBound,
    ids.abortedBound⟩, ⟨?_, ?_⟩, ⟨?_, pending.exclusive⟩⟩
  · intro type place record stored
    rw [loaded_slots] at stored
    split at stored
    · obtain rfl := some.inj stored
      rw [zero]
      exact Int.neg_nonpos_of_nonneg ids.counterLow
    · exact owned.bound type place record stored
  · intro handle type place record stored running negated
    rw [loaded_slots] at stored
    split at stored
    · obtain rfl := some.inj stored
      rw [zero] at negated
      omega
    · exact owned.ahead handle type place record stored running negated
  · intro handle
    apply pending_shown_frame (pending.trx handle)
    intro place touched
    rw [loaded_slots, if_neg]
    rintro rfl
    exact untouched_of_free pending free handle touched

variable {state : Loading}

theorem loading_consistent_load {next : Loading}
    (consistent : LoadingConsistent state) (taken : loadStep state (.load rid) = some next) :
    LoadingConsistent next := by
  obtain ⟨free, ⟨⟩⟩ := ite_none_right_eq_some.mp taken
  refine ⟨accounted_load consistent.accounted free, consistent.drawn, consistent.ended,
    consistent.ahead, ?_⟩
  intro place isLoaded
  by_cases there : place = rid
  · exact ⟨loadedRecord, by simp [loaded_slots, there], rfl, .inl (Int.le_refl 0)⟩
  · simp only [update_of_ne there] at isLoaded
    obtain ⟨record, stored, stamps⟩ := consistent.stamps place isLoaded
    exact ⟨record, by simp [loaded_slots, there, stored], stamps⟩

variable {record : Record} {handle : Nat}

theorem loaded_delete_ahead (consistent : LoadingConsistent state)
    (stored : state.tracked.db.records rid = some record) (zero : record.beginXid = 0)
    {type : OperationType} (ahead : ⟨type, rid⟩ ∈ (state.tracked.db.trxs handle).pending) :
    type = .delete ∧ record.endXid = -(state.tracked.db.trxs handle).trxId := by
  have running := running_of_pending consistent.accounted.ids ahead
  have notInserted : ⟨.insert, rid⟩ ∉ (state.tracked.db.trxs handle).pending := by
    intro inserted
    obtain ⟨found, same, begun⟩ :=
      (consistent.accounted.pending.trx handle).shown .insert rid inserted
    obtain rfl : found = record := some.inj (same.symm.trans stored)
    have : found.beginXid = -(state.tracked.db.trxs handle).trxId := begun
    omega
  obtain ⟨found, same, shows⟩ := (consistent.accounted.pending.trx handle).shown type rid ahead
  obtain rfl : found = record := some.inj (same.symm.trans stored)
  cases type with
  | insert => exact absurd ahead notInserted
  | delete =>
    rcases shows with ⟨inserted, -⟩ | ⟨-, deleting⟩ | ⟨commitXid, committing, rfl⟩
    · exact absurd inserted notInserted
    · exact ⟨rfl, deleting⟩
    · have := (commit_id_positive consistent.accounted.ids running committing).1
      simp only at zero
      omega

variable {action : Action} {db : Db}

theorem mem_deletes_after {deletes : List (Rid × Int)} {x : Int}
    (member : (rid, x) ∈ deletesAfter db deletes action) :
    (rid, x) ∈ deletes ∨ ∃ handle, action = .deleteRecord handle rid ∧
      (db.deleteRecord handle rid).1 = .success ∧ x = (db.trxs handle).trxId := by
  unfold deletesAfter at member
  split at member
  · rename_i handle place
    split at member
    · rename_i deleted
      rcases mem_cons.mp member with new | old
      · obtain ⟨rfl, rfl⟩ := Prod.mk.inj new
        exact .inr ⟨handle, rfl, deleted, rfl⟩
      · exact .inl old
    · exact .inl member
  · exact .inl member

theorem deletes_after_subset {deletes : List (Rid × Int)} {x : Int} (member : (rid, x) ∈ deletes) :
    (rid, x) ∈ deletesAfter db deletes action := by
  unfold deletesAfter
  split
  · split
    · exact mem_cons_of_mem _ member
    · exact member
  · exact member

theorem endings_after_cases (db : Db) (endings : Int → Option Ending) (action : Action) (x : Int) :
    endingsAfter db endings action x = endings x ∨
      ∃ ending, endingOf db action = some ending ∧ x = (db.trxs action.handle).trxId := by
  cases ends : endingOf db action with
  | none => exact .inl (by simp [endingsAfter, ends])
  | some ending =>
    by_cases same : x = (db.trxs action.handle).trxId
    · exact .inr ⟨ending, rfl, same⟩
    · exact .inl (by simp [endingsAfter, ends, same])

variable {next : Tracked}

theorem ended_step {state : Tracked} {ending : Ending}
    (taken : trackedStep state action = some next)
    (ends : endingOf state.db action = some ending) :
    (state.db.trxs action.handle).pending = [] ∧
      next.db.trxs = update state.db.trxs action.handle {} ∧
      next.db.records = state.db.records := by
  obtain ⟨db, stepped, rfl⟩ := map_eq_some_iff.mp taken
  cases action with
  | commitEnd handle =>
    obtain ⟨commitXid, loop, rfl⟩ := step_commit_end stepped
    exact ⟨pending_committing loop, rfl, rfl⟩
  | rollbackEnd handle =>
    obtain ⟨loop, rfl⟩ := step_rollback_end stepped
    exact ⟨pending_rolling_back loop, rfl, rfl⟩
  | startIfNeed | insertRecord | deleteRecord | commit | commitNext | rollback | rollbackNext
  | destroyTrx => cases ends

theorem pending_kept_running {state : Tracked} (ids : IdsConsistent state)
    (taken : trackedStep state action = some next) (before : (state.db.trxs handle).started = true)
    (after : (next.db.trxs handle).started = true) {operation : Operation}
    (ahead : operation ∈ (state.db.trxs handle).pending) :
    operation ∈ (next.db.trxs handle).pending := by
  have looping := ((ids.trx handle).startedLoop before).1
  rcases object_step taken handle with same | ⟨rfl, object⟩
  · rwa [same]
  · generalize next.db.trxs action.handle = trx at after object ⊢
    cases object with
    | start _ unstarted => exact absurd before unstarted
    | operate =>
      rw [pending_append looping]
      exact mem_append_left _ ahead
    | commitNext loop | rollbackNext loop => cases looping.symm.trans loop
    | commit | rollback | drop => cases after

/-- What a step may write into a loaded row: a settled end stamp, the old one,
or the mark of a delete. -/
def WritesEnd (db : Db) (action : Action) (rid : Rid) (record written : Record) : Prop :=
  written.beginXid = 0 ∧ (0 ≤ written.endXid ∨ written.endXid = record.endXid ∨
    ∃ handle, action = .deleteRecord handle rid ∧ (db.deleteRecord handle rid).1 = .success ∧
      written.endXid = -(db.trxs handle).trxId)

theorem loaded_record_step (consistent : LoadingConsistent state)
    (taken : trackedStep state.tracked action = some next)
    (stored : state.tracked.db.records rid = some record) (zero : record.beginXid = 0) :
    ∃ written, next.db.records rid = some written ∧
      WritesEnd state.tracked.db action rid record written := by
  have ids := consistent.accounted.ids
  rcases slot_step taken rid with ⟨same, -⟩ | change
  · exact ⟨record, same.trans stored, zero, .inr (.inl rfl)⟩
  generalize next.db.records rid = written, next.history.rows rid = row at change ⊢
  cases change with
  | insert _ free => cases free.symm.trans stored
  | @delete handle found _ foundAt visited =>
    obtain rfl : found = record := some.inj (foundAt.symm.trans stored)
    refine ⟨_, rfl, zero, .inr (.inr ⟨handle, rfl, ?_, rfl⟩)⟩
    simp [Db.deleteRecord, stored, visited]
  | commitInsert loop =>
    cases (loaded_delete_ahead consistent stored zero
      (pending_committing loop ▸ mem_cons_self)).1
  | commitDelete loop =>
    have positive := (committing_head ids loop).2.1
    exact ⟨_, congrArg (Option.map _) stored, zero, .inl (Int.le_of_lt positive)⟩
  | rollbackInsert loop =>
    cases (loaded_delete_ahead consistent stored zero
      (pending_rolling_back loop ▸ mem_cons_self)).1
  | rollbackDelete =>
    exact ⟨_, congrArg (Option.map _) stored, zero, .inl (show 0 ≤ maxTrxId by decide)⟩

theorem delete_step_started {state : Tracked}
    (taken : trackedStep state (.deleteRecord handle rid) = some next)
    (deleted : (state.db.deleteRecord handle rid).1 = .success) :
    (state.db.trxs handle).started = true ∧ (state.db.trxs handle).endLoop = .none ∧
      next.db.trxs = update state.db.trxs handle
        { state.db.trxs handle with
          operations := (state.db.trxs handle).operations ++ [⟨.delete, rid⟩] } := by
  obtain ⟨db, stepped, rfl⟩ := map_eq_some_iff.mp taken
  obtain ⟨⟨started, looping⟩, ⟨⟩⟩ := ite_none_right_eq_some.mp stepped
  obtain ⟨record, -, -, result⟩ := delete_record_of_success deleted
  exact ⟨started, looping, by simp [result]⟩

theorem loading_consistent_act {next : Loading}
    (consistent : LoadingConsistent state) (met : CounterFits state.tracked.db action)
    (taken : loadStep state (.act action) = some next) : LoadingConsistent next := by
  obtain ⟨tracked, stepped, rfl⟩ := map_eq_some_iff.mp taken
  have ids := consistent.accounted.ids
  obtain ⟨grows, idsAfter⟩ := ids_after_step ids.counterLow met stepped
  have unended : ∀ handle, 0 < (state.tracked.db.trxs handle).trxId →
      state.endings (state.tracked.db.trxs handle).trxId = none := by
    intro handle running
    refine eq_none_iff_forall_not_mem.mpr fun ending ended => ?_
    exact (consistent.ended _ ending ended).2 handle running rfl
  constructor
  · exact accounted_step consistent.accounted met stepped
  · intro rid x member
    rcases mem_deletes_after member with old | ⟨handle, rfl, deleted, rfl⟩
    · have before := consistent.drawn rid x old
      exact ⟨before.1, Int.le_trans before.2 grows⟩
    · have started := (delete_step_started stepped deleted).1
      exact ⟨((ids.trx handle).startedLoop started).2,
        Int.le_trans (ids.trx handle).idHigh grows⟩
  · intro x ending ended
    rcases endings_after_cases state.tracked.db state.endings action x with same | ⟨_, ends, rfl⟩
    · obtain ⟨high, dead⟩ := consistent.ended x ending (same ▸ ended)
      refine ⟨Int.le_trans high grows, fun handle positive => ?_⟩
      have before := dead handle positive
      show (tracked.db.trxs handle).trxId ≠ x
      rcases idsAfter handle with kept | dropped | drawn <;> omega
    · -- The object that ended is fresh again, and no other object had its id.
      obtain ⟨-, trxs, -⟩ := ended_step stepped ends
      refine ⟨Int.le_trans (ids.trx action.handle).idHigh grows, fun handle positive => ?_⟩
      simp only [trxs, update_apply]
      split
      · simp only
        omega
      · rename_i different
        exact fun same => different (ids.idUnique handle _ (same ▸ positive) same)
  · intro handle rid started member
    rcases mem_deletes_after member with old | ⟨acting, rfl, deleted, same⟩
    · rcases started_before stepped started with ⟨running, sameId⟩ | ⟨rfl, -, drawn⟩
      · have ahead := consistent.ahead handle rid running (sameId ▸ old)
        exact pending_kept_running ids stepped running started ahead
      · -- An id just drawn has not deleted anything.
        have high : (tracked.db.trxs handle).trxId ≤ _ := (consistent.drawn rid _ old).2
        have next := next_trx_id_eq ids.counterLow met
        omega
    · obtain ⟨acts, looping, trxs⟩ := delete_step_started stepped deleted
      have positive := ((ids.trx acting).startedLoop acts).2
      have sameHandle : handle = acting := by
        by_contra different
        simp only [trxs, update_of_ne different] at same
        exact different (ids.idUnique handle acting (same ▸ positive) same)
      subst sameHandle
      simp [trxs, pending_append looping]
  · intro rid isLoaded
    obtain ⟨record, stored, zero, mark⟩ := consistent.stamps rid isLoaded
    obtain ⟨written, storedAfter, zeroAfter, ends⟩ :=
      loaded_record_step consistent stepped stored zero
    refine ⟨written, storedAfter, zeroAfter, ?_⟩
    rcases ends with settled | same | ⟨handle, rfl, deleted, marked⟩
    · exact .inl settled
    · rw [same]
      rcases mark with settled | ⟨deleted, open_⟩
      · exact .inl settled
      · refine .inr ⟨deletes_after_subset deleted, ?_⟩
        rcases endings_after_cases state.tracked.db state.endings action (-record.endXid) with
          kept | ⟨ending, ends, own⟩
        · exact kept.trans open_
        · have positive := (consistent.drawn rid _ deleted).1
          have idle := (ended_step stepped ends).1
          have ahead := consistent.accounted.stamps.ahead action.handle .delete rid record stored
            (own ▸ positive) (by simp only [Record.stamp]; omega)
          simp [idle] at ahead
    · have started := (delete_step_started stepped deleted).1
      refine .inr ⟨?_, ?_⟩
      · simp [deletesAfter, deleted, marked]
      · rw [marked, Int.neg_neg]
        exact unended handle ((ids.trx handle).startedLoop started).2

theorem reaches_loading_consistent
    (run : Reaches loadStep IdsLast Loading.empty state) : LoadingConsistent state := by
  apply reaches_invariant LoadingConsistent _ loading_consistent_empty run
  intro before action after consistent met taken
  cases action with
  | load rid => exact loading_consistent_load consistent taken
  | act action => exact loading_consistent_act consistent met taken

theorem visible_of_zero_begin (stored : db.records rid = some record) (zero : record.beginXid = 0)
    (y : Int) :
    visibleTo db y rid = true ↔ 0 ≤ record.endXid ∨ record.endXid ≠ -y := by
  have visited : visitRecord y record .readOnly = .success ↔
      0 ≤ record.endXid ∨ record.endXid ≠ -y := by
    unfold visitRecord
    split_ifs <;> grind
  simpa [visibleTo, stored] using visited

/-- A loaded row obeys the rules as long as none of its deletes is committed,
and from then on it does not: the committed end stamp over a zero begin stamp
hides the row from nobody. -/
theorem loaded_rows_obey_mvcc_iff {state : Loading}
    (run : Reaches loadStep IdsLast Loading.empty state) :
    (∀ rid, state.loaded rid = true → ObeysMvcc state rid) ↔
      ∀ rid x commitXid, state.loaded rid = true → (rid, x) ∈ state.deletes →
        state.endings x ≠ some (.committed commitXid) := by
  have consistent := reaches_loading_consistent run
  constructor
  · intro obeys rid x commitXid isLoaded deleted committed
    obtain ⟨record, stored, zero, mark⟩ := consistent.stamps rid isLoaded
    -- An id that nobody has drawn yet still sees the row.
    have hidden := (obeys rid isLoaded).committedDelete x commitXid
      (max commitXid state.tracked.db.currentTrxId + 1) deleted committed (by omega)
    have shown := (visible_of_zero_begin stored zero
      (max commitXid state.tracked.db.currentTrxId + 1)).mpr (by
        have bound := consistent.accounted.stamps.bound .delete rid record stored
        simp only [Record.stamp] at bound
        omega)
    rw [hidden] at shown
    cases shown
  · intro uncommitted rid isLoaded
    obtain ⟨record, stored, zero, mark⟩ := consistent.stamps rid isLoaded
    have visible := visible_of_zero_begin stored zero
    constructor
    · intro handle started rolledBack
      have settled : 0 ≤ record.endXid := by
        refine mark.resolve_right fun ⟨deleted, unended⟩ => ?_
        rw [rolledBack _ deleted] at unended
        cases unended
      have visited : visitRecord (state.tracked.db.trxs handle).trxId record .readWrite =
          .success := by
        unfold visitRecord
        split_ifs <;> grind
      simp [Db.deleteRecord, stored, visited]
    · intro handle started deleted
      have ahead := consistent.ahead handle rid started deleted
      have running := running_of_pending consistent.accounted.ids ahead
      have marked := (loaded_delete_ahead consistent stored zero ahead).2
      refine Bool.eq_false_iff.mpr fun shown => ?_
      have := (visible _).mp shown
      omega
    · intro handle other started deleted otherStarted different success
      have ahead := consistent.ahead handle rid started deleted
      obtain ⟨found, foundAt, visited, -⟩ := delete_record_of_success success
      exact untouched_of_deletable consistent.accounted.ids consistent.accounted.pending
        otherStarted foundAt visited handle different.symm ⟨.delete, ahead⟩
    · intro x commitXid y deleted committed
      exact absurd committed (uncommitted rid x commitXid isLoaded deleted)
    · intro x y _ _ _ notOwn
      refine (visible y).mpr (mark.imp_right fun ⟨deleted, _⟩ own => notOwn ?_)
      rwa [own, Int.neg_neg] at deleted

def loadedRid : Rid := { tableId := 1, pageNum := 1, slotNum := 0 }

def loadAndRollBack : List LoadAction :=
  [.load loadedRid, .act (.startIfNeed 0), .act (.deleteRecord 0 loadedRid),
    .act (.rollback 0), .act (.rollbackNext 0), .act (.rollbackEnd 0)]

theorem load_and_roll_back_runs :
    (run loadStep IdsLast Loading.empty loadAndRollBack).isSome = true := by decide +kernel

theorem loaded_rows_obey_mvcc_after_rollback :
    ∃ state, Reaches loadStep IdsLast Loading.empty state ∧
      (loadedRid, 1) ∈ state.deletes ∧ state.endings 1 = some .rolledBack ∧
      ((∀ rid, state.loaded rid = true → ObeysMvcc state rid) ↔
        ∀ rid x commitXid, state.loaded rid = true → (rid, x) ∈ state.deletes →
          state.endings x ≠ some (.committed commitXid)) :=
  ⟨_, run_get_reaches load_and_roll_back_runs, by decide +kernel, by decide +kernel,
    loaded_rows_obey_mvcc_iff (run_get_reaches load_and_roll_back_runs)⟩

def loadAndCommit : List LoadAction :=
  [.load loadedRid, .act (.startIfNeed 0), .act (.deleteRecord 0 loadedRid),
    .act (.commit 0), .act (.commitNext 0), .act (.commitEnd 0), .act (.startIfNeed 1)]

theorem load_and_commit_runs :
    (run loadStep IdsLast Loading.empty loadAndCommit).isSome = true := by decide +kernel

/-- The transaction that starts after that commit still sees the row. -/
theorem loaded_row_survives_committed_delete :
    ∃ state, Reaches loadStep IdsLast Loading.empty state ∧ state.loaded loadedRid = true ∧
      (state.tracked.db.trxs 1).started = true ∧
      visibleTo state.tracked.db (state.tracked.db.trxs 1).trxId loadedRid = true ∧
      ¬ObeysMvcc state loadedRid := by
  refine ⟨_, run_get_reaches load_and_commit_runs, by decide +kernel, by decide +kernel,
    by decide +kernel, fun obeys => ?_⟩
  have hidden := obeys.committedDelete 1 2 3 (by decide +kernel) (by decide +kernel) (by decide)
  have shown : visibleTo ((run loadStep IdsLast Loading.empty loadAndCommit).get
      load_and_commit_runs).tracked.db 3 loadedRid = true := by decide +kernel
  rw [hidden] at shown
  cases shown

end CsuDbms.MvccTrxModel
