import CsuDbms.MvccTrxModel

/-!
# What the transactions did to each row

The stamps of a record change while a commit walks over its operations, so
they are not a good vocabulary for what a commit means. `History` records the
facts themselves: who inserted a row, who deleted it and is not rolled back,
and with which id a transaction committed. It is advanced next to the model
and never read by it. `Consistent` ties the stamps to these facts.
-/

namespace CsuDbms.MvccTrxModel

open List Option Function

structure RowHistory where
  insertedBy : Int
  deletedBy : List Int

structure History where
  rows : Rid → Option RowHistory
  commits : Int → Option Int
  aborted : Int → Bool

def History.empty : History where
  rows := fun _ => none
  commits := fun _ => none
  aborted := fun _ => false

def History.setRow (history : History) (rid : Rid) (row : Option RowHistory) : History :=
  { history with rows := update history.rows rid row }

/-- A transaction counts as committed from the moment its commit id is drawn:
that is the point every later id compares with. -/
def History.advance (history : History) (db : Db) : Action → History
  | .insertRecord handle rid =>
    history.setRow rid (some { insertedBy := (db.trxs handle).trxId, deletedBy := [] })
  | .deleteRecord handle rid =>
    if (db.deleteRecord handle rid).1 = .success then
      history.setRow rid ((history.rows rid).map fun row =>
        { row with deletedBy := (db.trxs handle).trxId :: row.deletedBy })
    else history
  | .commit handle =>
    if (db.trxs handle).started then
      { history with
        commits := update history.commits (db.trxs handle).trxId
          (some (nextTrxId db.currentTrxId)) }
    else history
  | .rollback handle =>
    if (db.trxs handle).started then
      { history with
        aborted := update history.aborted (db.trxs handle).trxId true }
    else history
  | .rollbackNext handle =>
    match (db.trxs handle).endLoop with
    | .rollback (operation :: _) =>
      match operation.type with
      | .insert => history.setRow operation.rid none
      | .delete =>
        history.setRow operation.rid ((history.rows operation.rid).map fun row =>
          { row with
            deletedBy := row.deletedBy.filter fun x => x ≠ (db.trxs handle).trxId })
    | _ => history
  | _ => history

structure Tracked where
  db : Db
  history : History

def Tracked.empty : Tracked where
  db := .empty
  history := .empty

def trackedStep (state : Tracked) (action : Action) : Option Tracked :=
  (step state.db action).map fun db =>
    { db := db, history := state.history.advance state.db action }

/-- Everything a step can do, with the state it leaves. -/
inductive Transition (state : Tracked) : Action → Tracked → Prop
  | keep {action : Action} : Transition state action state
  | start {handle : Nat} (looping : (state.db.trxs handle).endLoop = .none)
      (unstarted : ¬(state.db.trxs handle).started = true) :
      Transition state (.startIfNeed handle)
        { state with
          db := { (state.db.setTrx handle
              { state.db.trxs handle with
                trxId := nextTrxId state.db.currentTrxId, started := true }) with
            currentTrxId := nextTrxId state.db.currentTrxId } }
  | insert {handle : Nat} {rid : Rid} (started : (state.db.trxs handle).started = true)
      (free : state.db.records rid = none) :
      Transition state (.insertRecord handle rid)
        { db := state.db.insertRecord handle rid
          history := state.history.setRow rid
            (some { insertedBy := (state.db.trxs handle).trxId, deletedBy := [] }) }
  | delete {handle : Nat} {rid : Rid} {record : Record}
      (started : (state.db.trxs handle).started = true)
      (stored : state.db.records rid = some record)
      (visited : visitRecord (state.db.trxs handle).trxId record .readWrite = .success) :
      Transition state (.deleteRecord handle rid)
        { db := ((state.db.updateRecord rid fun record =>
              { record with endXid := -(state.db.trxs handle).trxId }).append
            [.trxDelete (state.db.trxs handle).trxId rid]).setTrx handle
              { state.db.trxs handle with
                operations := (state.db.trxs handle).operations ++ [⟨.delete, rid⟩] }
          history := state.history.setRow rid ((state.history.rows rid).map fun row =>
            { row with deletedBy := (state.db.trxs handle).trxId :: row.deletedBy }) }
  | commit {handle : Nat} (looping : (state.db.trxs handle).endLoop = .none) :
      Transition state (.commit handle)
        { db := { (state.db.setTrx handle
              { state.db.trxs handle with
                started := false
                endLoop := .commit (nextTrxId state.db.currentTrxId)
                  (state.db.trxs handle).operations }) with
            currentTrxId := nextTrxId state.db.currentTrxId }
          history := state.history.advance state.db (.commit handle) }
  | commitNext {handle : Nat} {commitXid : Int} {operation : Operation} {rest : List Operation}
      (loop : (state.db.trxs handle).endLoop = .commit commitXid (operation :: rest)) :
      Transition state (.commitNext handle)
        { state with
          db := (state.db.commitOperation commitXid operation).setTrx handle
            { state.db.trxs handle with endLoop := .commit commitXid rest } }
  | commitEnd {handle : Nat} {commitXid : Int}
      (loop : (state.db.trxs handle).endLoop = .commit commitXid []) :
      Transition state (.commitEnd handle)
        { state with
          db := (state.db.append [.trxCommit (state.db.trxs handle).trxId commitXid]).setTrx
            handle {} }
  | rollback {handle : Nat} (looping : (state.db.trxs handle).endLoop = .none) :
      Transition state (.rollback handle)
        { db := state.db.setTrx handle
            { state.db.trxs handle with
              started := false
              endLoop := .rollback (state.db.trxs handle).operations.reverse }
          history := state.history.advance state.db (.rollback handle) }
  | rollbackInsert {handle : Nat} {rid : Rid} {rest : List Operation}
      (loop : (state.db.trxs handle).endLoop = .rollback (⟨.insert, rid⟩ :: rest)) :
      Transition state (.rollbackNext handle)
        { db := (state.db.rollbackOperation ⟨.insert, rid⟩).setTrx handle
            { state.db.trxs handle with endLoop := .rollback rest }
          history := state.history.setRow rid none }
  | rollbackDelete {handle : Nat} {rid : Rid} {rest : List Operation}
      (loop : (state.db.trxs handle).endLoop = .rollback (⟨.delete, rid⟩ :: rest)) :
      Transition state (.rollbackNext handle)
        { db := (state.db.rollbackOperation ⟨.delete, rid⟩).setTrx handle
            { state.db.trxs handle with endLoop := .rollback rest }
          history := state.history.setRow rid ((state.history.rows rid).map fun row =>
            { row with
              deletedBy := row.deletedBy.filter fun x => x ≠ (state.db.trxs handle).trxId }) }
  | rollbackEnd {handle : Nat} (loop : (state.db.trxs handle).endLoop = .rollback []) :
      Transition state (.rollbackEnd handle)
        { state with
          db := (state.db.append [.trxRollback (state.db.trxs handle).trxId]).setTrx handle {} }
  | destroy {handle : Nat} (looping : (state.db.trxs handle).endLoop = .none) :
      Transition state (.destroyTrx handle)
        { state with db := state.db.setTrx handle {} }

variable {state next : Tracked} {action : Action}

theorem transition_of_step
    (taken : trackedStep state action = some next) : Transition state action next := by
  obtain ⟨db, stepped, rfl⟩ := map_eq_some_iff.mp taken
  cases action with
  | startIfNeed handle =>
    obtain ⟨looping, ⟨⟩⟩ := ite_none_right_eq_some.mp stepped
    by_cases started : (state.db.trxs handle).started = true
    · simpa [History.advance, Db.startIfNeed, started] using Transition.keep
    · simpa [History.advance, Db.startIfNeed, started] using Transition.start looping started
  | insertRecord handle rid =>
    obtain ⟨⟨started, -, free⟩, ⟨⟩⟩ := ite_none_right_eq_some.mp stepped
    exact .insert started free
  | deleteRecord handle rid =>
    obtain ⟨⟨started, -⟩, ⟨⟩⟩ := ite_none_right_eq_some.mp stepped
    by_cases deleted : (state.db.deleteRecord handle rid).1 = .success
    · obtain ⟨record, stored, visited, result⟩ := delete_record_of_success deleted
      simpa [History.advance, deleted, result] using Transition.delete started stored visited
    · simpa [History.advance, deleted, delete_record_of_failure deleted] using Transition.keep
  | commit handle =>
    obtain ⟨looping, ⟨⟩⟩ := ite_none_right_eq_some.mp stepped
    exact .commit looping
  | commitNext handle =>
    obtain ⟨commitXid, operation, rest, loop, rfl⟩ := step_commit_next stepped
    exact .commitNext loop
  | commitEnd handle =>
    obtain ⟨commitXid, loop, rfl⟩ := step_commit_end stepped
    exact .commitEnd loop
  | rollback handle =>
    obtain ⟨looping, ⟨⟩⟩ := ite_none_right_eq_some.mp stepped
    exact .rollback looping
  | rollbackNext handle =>
    obtain ⟨⟨type, rid⟩, rest, loop, rfl⟩ := step_rollback_next stepped
    cases type with
    | insert => simpa [History.advance, loop] using Transition.rollbackInsert loop
    | delete => simpa [History.advance, loop] using Transition.rollbackDelete loop
  | rollbackEnd handle =>
    obtain ⟨loop, rfl⟩ := step_rollback_end stepped
    exact .rollbackEnd loop
  | destroyTrx handle =>
    obtain ⟨looping, ⟨⟩⟩ := ite_none_right_eq_some.mp stepped
    exact .destroy looping

variable {handle : Nat}

inductive ObjectStep (current : Int) (trx : MvccTrx) : Action → MvccTrx → Prop
  | start {handle : Nat} (looping : trx.endLoop = .none) (unstarted : ¬trx.started = true) :
      ObjectStep current trx (.startIfNeed handle)
        { trx with trxId := nextTrxId current, started := true }
  | operate {action : Action} (started : trx.started = true) (operation : Operation) :
      ObjectStep current trx action { trx with operations := trx.operations ++ [operation] }
  | commit {handle : Nat} (looping : trx.endLoop = .none) :
      ObjectStep current trx (.commit handle)
        { trx with started := false, endLoop := .commit (nextTrxId current) trx.operations }
  | commitNext {action : Action} {commitXid : Int} {operation : Operation} {rest : List Operation}
      (loop : trx.endLoop = .commit commitXid (operation :: rest)) :
      ObjectStep current trx action { trx with endLoop := .commit commitXid rest }
  | rollback {handle : Nat} (looping : trx.endLoop = .none) :
      ObjectStep current trx (.rollback handle)
        { trx with started := false, endLoop := .rollback trx.operations.reverse }
  | rollbackNext {action : Action} {operation : Operation} {rest : List Operation}
      (loop : trx.endLoop = .rollback (operation :: rest)) :
      ObjectStep current trx action { trx with endLoop := .rollback rest }
  | drop {action : Action} : ObjectStep current trx action {}

section

variable (taken : trackedStep state action = some next)
include taken

theorem object_step (handle : Nat) :
    next.db.trxs handle = state.db.trxs handle ∨ action.handle = handle ∧
      ObjectStep state.db.currentTrxId (state.db.trxs handle) action (next.db.trxs handle) := by
  have object : next.db.trxs = state.db.trxs ∨ ∃ trx,
      next.db.trxs = update state.db.trxs action.handle trx ∧
        ObjectStep state.db.currentTrxId (state.db.trxs action.handle) action trx := by
    cases transition_of_step taken with
    | keep => exact .inl rfl
    | start looping unstarted => exact .inr ⟨_, rfl, .start looping unstarted⟩
    | insert started => exact .inr ⟨_, rfl, .operate started _⟩
    | delete started =>
      exact .inr ⟨_, congrArg (update · _ _) (update_record_trxs ..), .operate started _⟩
    | commit looping => exact .inr ⟨_, rfl, .commit looping⟩
    | commitNext loop =>
      exact .inr ⟨_, congrArg (update · _ _) (commit_operation_trxs ..), .commitNext loop⟩
    | rollback looping => exact .inr ⟨_, rfl, .rollback looping⟩
    | rollbackInsert loop | rollbackDelete loop =>
      exact .inr ⟨_, congrArg (update · _ _) (rollback_operation_trxs ..), .rollbackNext loop⟩
    | commitEnd | rollbackEnd | destroy => exact .inr ⟨_, rfl, .drop⟩
  rcases object with same | ⟨trx, trxs, object⟩
  · exact .inl (congrFun same handle)
  · by_cases acting : handle = action.handle
    · subst acting
      exact .inr ⟨rfl, by rwa [trxs, update_self]⟩
    · exact .inl (by rw [trxs, update_of_ne acting])

inductive SlotStep (state : Tracked) (rid : Rid) :
    Action → Option Record → Option RowHistory → Prop
  | insert {handle : Nat} (started : (state.db.trxs handle).started = true)
      (free : state.db.records rid = none) :
      SlotStep state rid (.insertRecord handle rid)
        (some ⟨-(state.db.trxs handle).trxId, maxTrxId⟩) (some ⟨(state.db.trxs handle).trxId, []⟩)
  | delete {handle : Nat} {record : Record} (started : (state.db.trxs handle).started = true)
      (stored : state.db.records rid = some record)
      (visited : visitRecord (state.db.trxs handle).trxId record .readWrite = .success) :
      SlotStep state rid (.deleteRecord handle rid)
        (some { record with endXid := -(state.db.trxs handle).trxId })
        ((state.history.rows rid).map fun row =>
          { row with deletedBy := (state.db.trxs handle).trxId :: row.deletedBy })
  | commitInsert {handle : Nat} {commitXid : Int} {rest : List Operation}
      (loop : (state.db.trxs handle).endLoop = .commit commitXid (⟨.insert, rid⟩ :: rest)) :
      SlotStep state rid (.commitNext handle)
        ((state.db.records rid).map fun record => { record with beginXid := commitXid })
        (state.history.rows rid)
  | commitDelete {handle : Nat} {commitXid : Int} {rest : List Operation}
      (loop : (state.db.trxs handle).endLoop = .commit commitXid (⟨.delete, rid⟩ :: rest)) :
      SlotStep state rid (.commitNext handle)
        ((state.db.records rid).map fun record => { record with endXid := commitXid })
        (state.history.rows rid)
  | rollbackInsert {handle : Nat} {rest : List Operation}
      (loop : (state.db.trxs handle).endLoop = .rollback (⟨.insert, rid⟩ :: rest)) :
      SlotStep state rid (.rollbackNext handle) none none
  | rollbackDelete {handle : Nat} {rest : List Operation}
      (loop : (state.db.trxs handle).endLoop = .rollback (⟨.delete, rid⟩ :: rest)) :
      SlotStep state rid (.rollbackNext handle)
        ((state.db.records rid).map fun record => { record with endXid := maxTrxId })
        ((state.history.rows rid).map fun row =>
          { row with deletedBy := row.deletedBy.filter fun x => x ≠ (state.db.trxs handle).trxId })

theorem slot_step (rid : Rid) :
    (next.db.records rid = state.db.records rid ∧
        next.history.rows rid = state.history.rows rid) ∨
      SlotStep state rid action (next.db.records rid) (next.history.rows rid) := by
  have change : (next.db.records = state.db.records ∧ next.history.rows = state.history.rows) ∨
      ∃ place record row, next.db.records = update state.db.records place record ∧
        next.history.rows = update state.history.rows place row ∧
          SlotStep state place action record row := by
    cases transition_of_step taken with
    | keep | start | commitEnd | rollbackEnd | destroy => exact .inl ⟨rfl, rfl⟩
    | commit | rollback =>
      refine .inl ⟨rfl, ?_⟩
      simp only [History.advance]
      split <;> rfl
    | insert started free => exact .inr ⟨_, _, _, rfl, rfl, .insert started free⟩
    | delete started stored visited =>
      exact .inr ⟨_, _, _, by simp [stored], rfl, .delete started stored visited⟩
    | @commitNext _ _ operation _ loop =>
      obtain ⟨type, place⟩ := operation
      have rows := (update_eq_self place state.history.rows).symm
      cases type with
      | insert => exact .inr ⟨_, _, _, update_record_records .., rows, .commitInsert loop⟩
      | delete => exact .inr ⟨_, _, _, update_record_records .., rows, .commitDelete loop⟩
    | rollbackInsert loop => exact .inr ⟨_, _, _, rfl, rfl, .rollbackInsert loop⟩
    | rollbackDelete loop =>
      exact .inr ⟨_, _, _, update_record_records .., rfl, .rollbackDelete loop⟩
  rcases change with ⟨records, rows⟩ | ⟨place, record, row, records, rows, change⟩
  · exact .inl ⟨congrFun records rid, congrFun rows rid⟩
  · by_cases here : rid = place
    · subst here
      exact .inr (by rwa [records, rows, update_self, update_self])
    · exact .inl ⟨by rw [records, update_of_ne here], by rw [rows, update_of_ne here]⟩

theorem started_before (started : (next.db.trxs handle).started = true) :
    (state.db.trxs handle).started = true ∧
        (next.db.trxs handle).trxId = (state.db.trxs handle).trxId ∨
      action = .startIfNeed handle ∧ ¬(state.db.trxs handle).started = true ∧
        (next.db.trxs handle).trxId = nextTrxId state.db.currentTrxId := by
  rcases object_step taken handle with same | ⟨rfl, object⟩
  · rw [same] at started ⊢
    exact .inl ⟨started, rfl⟩
  · generalize next.db.trxs action.handle = trx at started object ⊢
    cases object with
    | start looping unstarted => exact .inr ⟨rfl, unstarted, rfl⟩
    | operate | commitNext | rollbackNext => exact .inl ⟨started, rfl⟩
    | commit | rollback | drop => cases started

theorem committing_before {c : Int} {rest : List Operation}
    (loop : (next.db.trxs handle).endLoop = .commit c rest) :
    (∃ earlier, (state.db.trxs handle).endLoop = .commit c earlier ∧ rest <:+ earlier) ∨
      action = .commit handle ∧ c = nextTrxId state.db.currentTrxId := by
  rcases object_step taken handle with same | ⟨rfl, object⟩
  · rw [same] at loop
    exact .inl ⟨rest, loop, suffix_rfl⟩
  · generalize next.db.trxs action.handle = trx at loop object
    cases object with
    | start | operate => exact .inl ⟨rest, loop, suffix_rfl⟩
    | commit =>
      cases loop
      exact .inr ⟨rfl, rfl⟩
    | commitNext before =>
      cases loop
      exact .inl ⟨_, before, suffix_cons _ _⟩
    | rollback | rollbackNext | drop => cases loop

end

def InsertFirst (earlier later : Operation) : Prop :=
  later.type = .insert → earlier.rid ≠ later.rid

/-- What the id, the phase and the pending operations of one transaction object
say about each other and about the committed and rolled back ids. -/
structure TrxConsistent (current : Int) (history : History) (trx : MvccTrx) : Prop where
  idLow : trx.trxId = -1 ∨ 0 < trx.trxId
  idHigh : trx.trxId ≤ current
  unstarted : trx.trxId = -1 → trx.started = false ∧ trx.pending = []
  startedLoop : trx.started = true → trx.endLoop = .none ∧ 0 < trx.trxId
  runningLoop : 0 < trx.trxId → trx.started = true ∨ trx.endLoop ≠ .none
  notCommitId : ∀ x, history.commits x ≠ some trx.trxId
  startedOpen : trx.started = true →
    history.commits trx.trxId = none ∧ history.aborted trx.trxId = false
  committing : ∀ c rest, 0 < trx.trxId → trx.endLoop = .commit c rest →
    history.commits trx.trxId = some c
  aborting : ∀ rest, 0 < trx.trxId → trx.endLoop = .rollback rest →
    history.aborted trx.trxId = true

structure IdsConsistent (state : Tracked) : Prop where
  counterLow : 0 ≤ state.db.currentTrxId
  counterHigh : state.db.currentTrxId < maxTrxId
  trx : ∀ handle, TrxConsistent state.db.currentTrxId state.history (state.db.trxs handle)
  idUnique : ∀ handle other, 0 < (state.db.trxs handle).trxId →
    (state.db.trxs handle).trxId = (state.db.trxs other).trxId → handle = other
  commitBound : ∀ x c, state.history.commits x = some c →
    0 < x ∧ x < c ∧ c ≤ state.db.currentTrxId
  abortedBound : ∀ x, state.history.aborted x = true →
    state.history.commits x = none ∧ 0 < x ∧ x ≤ state.db.currentTrxId

/-- The conditions under which the counter does not run out and no delete hits
a row whose committed end stamp still covers the deleting transaction. -/
def LeavesCommittedDeletes (db : Db) : Action → Prop
  | .startIfNeed _ => db.currentTrxId + 1 < maxTrxId
  | .commit _ => db.currentTrxId + 1 < maxTrxId
  | .deleteRecord handle rid =>
    ∀ record ∈ db.records rid,
      ¬(record.beginXid ≤ (db.trxs handle).trxId ∧
        (db.trxs handle).trxId ≤ record.endXid ∧ record.endXid < maxTrxId)
  | _ => True

instance (db : Db) (action : Action) : Decidable (LeavesCommittedDeletes db action) := by
  cases action <;> dsimp only [LeavesCommittedDeletes] <;> infer_instance

def CounterFits (db : Db) : Action → Prop
  | .startIfNeed _ | .commit _ => db.currentTrxId + 1 < maxTrxId
  | _ => True

instance (db : Db) (action : Action) : Decidable (CounterFits db action) := by
  cases action <;> dsimp only [CounterFits] <;> infer_instance

theorem counter_fits_of_leaves {db : Db}
    (met : LeavesCommittedDeletes db action) : CounterFits db action := by
  cases action with
  | startIfNeed | commit => exact met
  | insertRecord | deleteRecord | commitNext | commitEnd | rollback | rollbackNext | rollbackEnd
  | destroyTrx => trivial

variable {history : History}

theorem trx_consistent_new {current : Int} (low : 0 ≤ current)
    (positive : ∀ x c, history.commits x = some c → 0 < c) :
    TrxConsistent current history {} := by
  constructor <;> grind -linarith [MvccTrx.pending]

theorem ids_consistent_empty : IdsConsistent Tracked.empty where
  counterLow := Int.le_refl 0
  counterHigh := by decide
  trx := fun _ => trx_consistent_new (Int.le_refl 0) nofun
  idUnique := by simp [Tracked.empty, Db.empty]
  commitBound := nofun
  abortedBound := nofun

theorem ids_of_gt (ids : IdsConsistent state) {x : Int} (fresh : state.db.currentTrxId < x) :
    state.history.commits x = none ∧ state.history.aborted x = false := by
  constructor
  · refine eq_none_iff_forall_not_mem.mpr fun c committed => ?_
    have := ids.commitBound x c committed
    omega
  · refine Bool.eq_false_iff.mpr fun aborted => ?_
    have := ids.abortedBound x aborted
    omega

theorem trx_consistent_idle (ids : IdsConsistent state) :
    TrxConsistent state.db.currentTrxId state.history {} :=
  trx_consistent_new ids.counterLow fun x c committed => by
    have := ids.commitBound x c committed
    omega

variable {trx : MvccTrx}

theorem trx_consistent_frame {current later : Int} {next : History}
    (consistent : TrxConsistent current history trx) (grows : current ≤ later)
    (commits : next.commits trx.trxId = history.commits trx.trxId)
    (aborted : next.aborted trx.trxId = history.aborted trx.trxId)
    (drawn : ∀ x c, next.commits x = some c → history.commits x = some c ∨ current < c) :
    TrxConsistent later next trx := by
  obtain ⟨idLow, idHigh, unstarted, startedLoop, runningLoop, notCommitId, startedOpen,
    committing, aborting⟩ := consistent
  constructor <;> grind -linarith

theorem counter_step (low : 0 ≤ state.db.currentTrxId) (met : CounterFits state.db action)
    (taken : trackedStep state action = some next) :
    next.db.currentTrxId = state.db.currentTrxId ∨
      next.db.currentTrxId = state.db.currentTrxId + 1 ∧ next.db.currentTrxId < maxTrxId := by
  cases transition_of_step taken with
  | start | commit =>
    have drawn := next_trx_id_eq low met
    exact .inr ⟨drawn, drawn ▸ met⟩
  | _ => exact .inl (by simp [Db.insertRecord])

theorem ids_after_step (low : 0 ≤ state.db.currentTrxId) (met : CounterFits state.db action)
    (taken : trackedStep state action = some next) :
    state.db.currentTrxId ≤ next.db.currentTrxId ∧
      ∀ handle, (next.db.trxs handle).trxId = (state.db.trxs handle).trxId ∨
        (next.db.trxs handle).trxId = -1 ∨
        (next.db.trxs handle).trxId = state.db.currentTrxId + 1 := by
  constructor
  · have := counter_step low met taken
    omega
  · intro handle
    rcases object_step taken handle with same | ⟨rfl, object⟩
    · exact .inl (by rw [same])
    · generalize next.db.trxs action.handle = trx at object ⊢
      cases object with
      | start => exact .inr (.inr (next_trx_id_eq low met))
      | operate | commit | commitNext | rollback | rollbackNext => exact .inl rfl
      | drop => exact .inr (.inl rfl)

theorem decided_step (taken : trackedStep state action = some next) (x : Int) :
    next.history.commits x = state.history.commits x ∧
        next.history.aborted x = state.history.aborted x ∨
      x = (state.db.trxs action.handle).trxId ∧ (next.db.trxs action.handle).trxId = x ∧
        (state.db.trxs action.handle).started = true ∧
        (next.history.aborted x = state.history.aborted x ∧
            next.history.commits x = some next.db.currentTrxId ∧
            (0 ≤ state.db.currentTrxId → CounterFits state.db action →
              state.db.currentTrxId < next.db.currentTrxId) ∨
          next.history.aborted x = true ∧
            next.history.commits x = state.history.commits x) := by
  cases transition_of_step taken with
  | commit =>
    have drawn := @next_trx_id_eq state.db.currentTrxId
    simp only [History.advance, Action.handle, Db.setTrx, update_self, CounterFits]
    split <;> grind -linarith
  | rollback =>
    simp only [History.advance, Action.handle, Db.setTrx, update_self]
    split <;> grind -linarith
  | _ => exact .inl ⟨rfl, rfl⟩

theorem commits_monotone (ids : IdsConsistent state) (taken : trackedStep state action = some next)
    {x c : Int} (committed : state.history.commits x = some c) :
    next.history.commits x = some c := by
  rcases decided_step taken x with ⟨same, -⟩ | ⟨rfl, -, started, -⟩
  · rw [same, committed]
  · rw [((ids.trx action.handle).startedOpen started).1] at committed
    cases committed

section

variable (ids : IdsConsistent state) (met : CounterFits state.db action)
  (taken : trackedStep state action = some next)
include ids met taken

theorem trx_consistent_acting :
    TrxConsistent next.db.currentTrxId next.history (next.db.trxs action.handle) := by
  have low := ids.counterLow
  have idle := trx_consistent_idle ids
  obtain ⟨idLow, idHigh, unstarted, startedLoop, runningLoop, notCommitId, startedOpen,
    committing, aborting⟩ := ids.trx action.handle
  cases transition_of_step taken with
  | keep => exact ids.trx action.handle
  | start =>
    have drawn := next_trx_id_eq low met
    have fresh := ids_of_gt ids (Int.lt_succ state.db.currentTrxId)
    have bound := ids.commitBound
    simp only [Db.setTrx, drawn, Action.handle, update_self]
    constructor <;> grind -linarith
  | commit =>
    have drawn := next_trx_id_eq low met
    simp only [Db.setTrx, History.advance, drawn, Action.handle, update_self] at *
    split <;> constructor <;> grind -linarith [MvccTrx.pending]
  | rollback =>
    simp only [Db.setTrx, History.advance, Action.handle, update_self] at *
    split <;> constructor <;> grind -linarith [MvccTrx.pending]
  | insert | delete | commitNext | rollbackInsert | rollbackDelete =>
    simp [Db.setTrx, Action.handle, Db.insertRecord, History.setRow] at *
    constructor <;> grind -linarith [MvccTrx.pending]
  | commitEnd | rollbackEnd | destroy => simpa [Action.handle] using idle

theorem ids_consistent_step : IdsConsistent next := by
  have low := ids.counterLow
  have high := ids.counterHigh
  have counter := counter_step low met taken
  have decided := decided_step taken
  have own := trx_consistent_acting ids met taken
  have others : ∀ handle, handle ≠ action.handle → next.db.trxs handle = state.db.trxs handle :=
    fun handle different => (object_step taken handle).resolve_right (different ·.1.symm)
  obtain ⟨-, idHigh, -, running, -, -, opened, -, -⟩ := ids.trx action.handle
  constructor
  · omega
  · omega
  · intro handle
    by_cases acting : handle = action.handle
    · exact acting ▸ own
    · have apart := ids.idUnique handle action.handle
      rw [others handle acting]
      refine trx_consistent_frame (ids.trx handle) (by omega) ?_ ?_ fun x c => ?_ <;>
        grind -linarith
  · intro one two
    have after := (ids_after_step low met taken).2 action.handle
    have oneHigh := (ids.trx one).idHigh
    have twoHigh := (ids.trx two).idHigh
    have := ids.idUnique one two
    have := ids.idUnique one action.handle
    have := ids.idUnique action.handle two
    grind -linarith
  · intro x c
    have bound := ids.commitBound x c
    grind -linarith
  · intro x
    have bound := ids.abortedBound x
    grind -linarith

end

end CsuDbms.MvccTrxModel
