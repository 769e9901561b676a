import CsuDbms.MvccLostUpdate

/-!
# What a reading transaction sees

A visit decides visibility from two stamps and the id of the visitor. In the
runs where no transaction starts inside the stamping loop of a commit, no
transaction deletes its own insert, and no row is deleted while a transaction
older than that row is open, the verdict is the snapshot of the visitor: the
changes of the transactions committed before it, with its own on top.
-/

namespace CsuDbms.MvccTrxModel

open TransitionSystem List Option

variable {state next : Tracked} {handle : Nat}

/-- `t` takes the changes of `x` into account: they are its own, or `x`
committed with a smaller id. -/
def Seen (history : History) (t x : Int) : Prop :=
  x = t ∨ ∃ c, history.commits x = some c ∧ c < t

/-- The snapshot of `t`. Whether a change counts depends on its transaction
only, so `t` has all or none of the changes of another transaction. -/
def InSnapshot (history : History) (t : Int) (rid : Rid) : Prop :=
  ∃ row, history.rows rid = some row ∧ Seen history t row.insertedBy ∧
    ∀ x ∈ row.deletedBy, ¬Seen history t x

def MvccTrx.stamping (trx : MvccTrx) : Prop :=
  ∃ c operation rest, trx.endLoop = .commit c (operation :: rest)

def SnapshotSafe (db : Db) : Action → Prop
  | .startIfNeed handle =>
    (db.trxs handle).started = true ∨ ∀ other, ¬(db.trxs other).stamping
  | .deleteRecord handle rid =>
    ∀ record ∈ db.records rid,
      visitRecord (db.trxs handle).trxId record .readWrite = .success →
      record.beginXid ≠ -(db.trxs handle).trxId ∧
        ∀ other, (db.trxs other).started = true → record.beginXid ≤ (db.trxs other).trxId
  | _ => True

def KeepsSnapshots (state : Tracked) (action : Action) : Prop :=
  KeepsDeletes state action ∧ SnapshotSafe state.db action

structure SnapshotConsistent (state : Tracked) : Prop where
  ownUndeleted : ∀ rid row, state.history.rows rid = some row →
    row.insertedBy ∉ row.deletedBy
  stampingYounger : ∀ handle other c operation rest,
    (state.db.trxs handle).started = true →
    (state.db.trxs other).endLoop = .commit c (operation :: rest) →
    (state.db.trxs handle).trxId < c
  deletingOlder : ∀ handle rid record, (state.db.trxs handle).started = true →
    state.db.records rid = some record → record.endXid < 0 → 0 < record.beginXid →
    record.beginXid < (state.db.trxs handle).trxId

theorem snapshot_consistent_empty : SnapshotConsistent Tracked.empty where
  ownUndeleted := nofun
  stampingYounger := nofun
  deletingOlder := nofun

theorem seen_of_started (consistent : Consistent state)
    (started : (state.db.trxs handle).started = true) {x c : Int}
    (committed : state.history.commits x = some c) :
    Seen state.history (state.db.trxs handle).trxId x ↔ c < (state.db.trxs handle).trxId := by
  obtain ⟨uncommitted, -⟩ := (consistent.ids.trx handle).startedOpen started
  unfold Seen
  grind

theorem not_seen_of_unstamped (consistent : Consistent state) (snapshot : SnapshotConsistent state)
    (started : (state.db.trxs handle).started = true) {x : Int} {operation : Operation}
    (unstamped : Unstamped state x operation) (different : x ≠ (state.db.trxs handle).trxId) :
    ¬Seen state.history (state.db.trxs handle).trxId x := by
  rintro (same | ⟨c, committed, smaller⟩)
  · exact different same
  · rcases unstamped with uncommitted | ⟨other, owner, ahead⟩
    · rw [uncommitted] at committed
      cases committed
    · have running := running_of_pending consistent.ids ahead
      have undecided := undecided_of_open consistent.ids running fun d rest loop => by
        have own := (consistent.ids.trx other).committing _ _ running loop
        rw [owner, committed] at own
        cases own
        rw [pending_committing loop] at ahead
        obtain ⟨first, rest, rfl⟩ := exists_cons_of_ne_nil (ne_nil_of_mem ahead)
        have := snapshot.stampingYounger handle other _ _ _ started loop
        omega
      rw [owner, committed] at undecided
      cases undecided

theorem visit_read_only (trxId : Int) (record : Record) (settled : record.beginXid ≠ 0)
    (ended : record.endXid ≠ 0) :
    visitRecord trxId record .readOnly = .success ↔
      (record.beginXid = -trxId ∧ record.beginXid < 0) ∨
      (0 < record.beginXid ∧ record.endXid < 0 ∧ record.endXid ≠ -trxId) ∨
      (0 < record.beginXid ∧ 0 < record.endXid ∧
        record.beginXid ≤ trxId ∧ trxId ≤ record.endXid) := by
  unfold visitRecord
  split_ifs <;> grind

theorem visible_iff_in_snapshot (consistent : Consistent state)
    (snapshot : SnapshotConsistent state) (started : (state.db.trxs handle).started = true)
    (rid : Rid) :
    visibleTo state.db (state.db.trxs handle).trxId rid = true ↔
      InSnapshot state.history (state.db.trxs handle).trxId rid := by
  cases stored : state.db.records rid with
  | none =>
    have missing := (consistent.slots rid).present.mpr stored
    simp [visibleTo, stored, InSnapshot, missing]
  | some record =>
    obtain ⟨row, found, rowFacts⟩ := row_of_record consistent.slots stored
    have bound := consistent.ids.commitBound
    have trx := consistent.ids.trx handle
    have running := (trx.startedLoop started).2
    have high := trx.idHigh
    have counterHigh := consistent.ids.counterHigh
    have inSnapshot : InSnapshot state.history (state.db.trxs handle).trxId rid ↔
        Seen state.history (state.db.trxs handle).trxId row.insertedBy ∧
          ∀ x ∈ row.deletedBy, ¬Seen state.history (state.db.trxs handle).trxId x := by
      simp [InSnapshot, found]
    have visible : visibleTo state.db (state.db.trxs handle).trxId rid = true ↔
        visitRecord (state.db.trxs handle).trxId record .readOnly = .success := by
      simp [visibleTo, stored]
    have positive := rowFacts.positive
    have ownUndeleted := snapshot.ownUndeleted rid row found
    have endFacts : row.deletedBy = [] ∧ record.endXid = maxTrxId ∨
        ∃ y, y ∈ row.deletedBy ∧ (∀ z ∈ row.deletedBy, z = y) ∧ 0 < y ∧
          (record.endXid = -y ∧ Unstamped state y ⟨.delete, rid⟩ ∨
            state.history.commits y = some record.endXid ∧ 0 < record.endXid) ∧
          state.history.commits row.insertedBy = some record.beginXid := by
      refine rowFacts.endStamp.imp_right fun ⟨y, once⟩ => ⟨y, once.mem, once.only,
        once.positive.1, once.stamp.imp_right fun committed => ⟨committed, ?_⟩, ?_⟩
      · have := bound _ _ committed
        omega
      · rcases once.younger with same | ⟨committed, -⟩
        · exact absurd (same ▸ once.mem) ownUndeleted
        · exact committed
    have maxPositive : 0 < maxTrxId := by decide
    rw [visible, inSnapshot]
    rcases rowFacts.beginStamp with ⟨beginStamp, unstamped⟩ | committed
    · have nobody : row.deletedBy = [] ∧ record.endXid = maxTrxId := by
        rcases endFacts with nobody | ⟨y, -, -, -, -, committed⟩
        · exact nobody
        · have := bound _ _ committed
          omega
      rw [visit_read_only _ _ (by omega) (by omega)]
      simp only [nobody.1, not_mem_nil, false_implies, implies_true, and_true]
      by_cases own : row.insertedBy = (state.db.trxs handle).trxId
      · exact ⟨fun _ => .inl own, fun _ => .inl (by omega)⟩
      · have unseen := not_seen_of_unstamped consistent snapshot started unstamped own
        exact ⟨fun seen => by omega, fun seen => absurd seen unseen⟩
    · have beginPositive := bound _ _ committed
      have notId := trx.notCommitId row.insertedBy
      have beginNe : record.beginXid ≠ (state.db.trxs handle).trxId :=
        fun same => notId (same ▸ committed)
      rw [seen_of_started consistent started committed]
      rcases endFacts with ⟨nobody, last⟩ | ⟨y, mem, only, yPositive, stamp, -⟩
      · rw [visit_read_only _ _ (by omega) (by omega)]
        simp only [nobody, not_mem_nil, false_implies, implies_true, and_true]
        omega
      · have deleters : (∀ x ∈ row.deletedBy,
            ¬Seen state.history (state.db.trxs handle).trxId x) ↔
            ¬Seen state.history (state.db.trxs handle).trxId y :=
          ⟨fun all => all y mem, fun unseen x deleter => only x deleter ▸ unseen⟩
        rw [deleters]
        rcases stamp with ⟨endStamp, unstamped⟩ | ⟨deleted, endPositive⟩
        · rw [visit_read_only _ _ (by omega) (by omega)]
          have older := snapshot.deletingOlder handle rid record started stored (by omega)
            (by omega)
          by_cases own : y = (state.db.trxs handle).trxId
          · exact ⟨fun seen => by omega, fun ⟨_, unseen⟩ => absurd (.inl own) unseen⟩
          · have unseen := not_seen_of_unstamped consistent snapshot started unstamped own
            exact ⟨fun _ => ⟨older, unseen⟩, fun _ => .inr (.inl (by omega))⟩
        · rw [visit_read_only _ _ (by omega) (by omega), seen_of_started consistent started deleted]
          omega

section

variable {action : Action}

theorem own_undeleted_step (consistent : Consistent state) (snapshot : SnapshotConsistent state)
    (safe : SnapshotSafe state.db action) (taken : trackedStep state action = some next) (rid : Rid)
    (row : RowHistory) (found : next.history.rows rid = some row) :
    row.insertedBy ∉ row.deletedBy := by
  have old := snapshot.ownUndeleted rid
  rcases slot_step taken rid with ⟨-, same⟩ | change
  · exact old row (same ▸ found)
  generalize next.db.records rid = written, next.history.rows rid = after at found change
  cases change with
  | insert =>
    cases found
    simp
  | @delete handle record started stored visited =>
    obtain ⟨before, foundBefore, rfl⟩ := map_eq_some_iff.mp found
    have oldRow := old before foundBefore
    have rowFacts := (consistent.slots rid).row before record foundBefore stored
    obtain ⟨notOwn, -⟩ := safe record stored visited
    have uncommitted := ((consistent.ids.trx handle).startedOpen started).1
    have different : before.insertedBy ≠ (state.db.trxs handle).trxId := by
      intro same
      rcases rowFacts.beginStamp with ⟨stamp, -⟩ | committed
      · exact notOwn (by rw [stamp, same])
      · rw [same, uncommitted] at committed
        cases committed
    simp [different, oldRow]
  | commitInsert | commitDelete => exact old row found
  | rollbackInsert => cases found
  | rollbackDelete =>
    obtain ⟨before, foundBefore, rfl⟩ := map_eq_some_iff.mp found
    have oldRow := old before foundBefore
    simp [oldRow]

theorem stamping_younger_step (consistent : Consistent state) (snapshot : SnapshotConsistent state)
    (met : LeavesCommittedDeletes state.db action) (safe : SnapshotSafe state.db action)
    (taken : trackedStep state action = some next) (handle other : Nat) (c : Int)
    (operation : Operation) (rest : List Operation) (started : (next.db.trxs handle).started = true)
    (loop : (next.db.trxs other).endLoop = .commit c (operation :: rest)) :
    (next.db.trxs handle).trxId < c := by
  have idHigh := (consistent.ids.trx handle).idHigh
  rcases committing_before taken loop with ⟨earlier, loopBefore, ahead⟩ | ⟨rfl, drawn⟩
  · obtain ⟨first, later, rfl⟩ := exists_cons_of_ne_nil (ne_nil_of_mem (ahead.mem mem_cons_self))
    rcases started_before taken started with ⟨before, sameId⟩ | ⟨rfl, unstarted, -⟩
    · rw [sameId]
      exact snapshot.stampingYounger handle other c first later before loopBefore
    · exact absurd ⟨c, first, later, loopBefore⟩ ((safe.resolve_left unstarted) other)
  · rcases started_before taken started with ⟨_, sameId⟩ | ⟨isStart, -⟩
    · rw [sameId, drawn, next_trx_id_eq consistent.ids.counterLow met]
      omega
    · cases isStart

end

variable {rid : Rid}

/-- Which records a step leaves with a positive begin stamp under a negative
end stamp: those it found so, and the one it has just deleted. -/
theorem deleting_before {action : Action} (consistent : Consistent state)
    (snapshot : SnapshotConsistent state) (taken : trackedStep state action = some next)
    {record : Record} (stored : next.db.records rid = some record) (deleting : record.endXid < 0)
    (settled : 0 < record.beginXid) :
    state.db.records rid = some record ∨
      ∃ handle before, action = .deleteRecord handle rid ∧
        state.db.records rid = some before ∧ record.beginXid = before.beginXid ∧
        visitRecord (state.db.trxs handle).trxId before .readWrite = .success := by
  have maxPositive : 0 < maxTrxId := by decide
  rcases slot_step taken rid with ⟨same, -⟩ | change
  · exact .inl (same ▸ stored)
  generalize next.db.records rid = written, next.history.rows rid = row at stored change
  cases change with
  | insert =>
    cases stored
    simp only at deleting
    omega
  | @delete handle before _ storedBefore visited =>
    cases stored
    exact .inr ⟨handle, before, rfl, storedBefore, rfl, visited⟩
  | @commitInsert handle commitXid rest loop =>
    obtain ⟨ahead, -, committed⟩ := committing_head consistent.ids loop
    obtain ⟨row, found, inserter⟩ := (consistent.operations handle).insertRow rid ahead
    obtain ⟨before, storedBefore, rfl⟩ := map_eq_some_iff.mp stored
    have rowFacts := (consistent.slots rid).row row before found storedBefore
    simp only at deleting settled
    rcases rowFacts.endStamp with ⟨-, last⟩ | ⟨y, once⟩
    · omega
    · rcases once.younger with same | ⟨inserted, -⟩
      · exact absurd (same ▸ once.mem) (snapshot.ownUndeleted rid row found)
      · rw [inserter, committed] at inserted
        cases inserted
        exact .inl storedBefore
  | commitDelete loop =>
    have positive := (committing_head consistent.ids loop).2.1
    obtain ⟨before, -, rfl⟩ := map_eq_some_iff.mp stored
    simp only at deleting
    omega
  | rollbackInsert => cases stored
  | rollbackDelete =>
    obtain ⟨before, -, rfl⟩ := map_eq_some_iff.mp stored
    simp only at deleting
    omega

theorem begin_committed (consistent : Consistent state) {record : Record}
    (stored : state.db.records rid = some record) (settled : 0 < record.beginXid) :
    record.beginXid ≤ state.db.currentTrxId ∧
      ∀ handle, record.beginXid ≠ (state.db.trxs handle).trxId := by
  obtain ⟨row, found, rowFacts⟩ := row_of_record consistent.slots stored
  have positive := rowFacts.positive
  have committed := rowFacts.beginStamp.resolve_left (by omega)
  refine ⟨(consistent.ids.commitBound _ _ committed).2.2, fun handle same => ?_⟩
  exact (consistent.ids.trx handle).notCommitId _ (same ▸ committed)

section

variable {action : Action} (consistent : Consistent state) (snapshot : SnapshotConsistent state)
  (met : LeavesCommittedDeletes state.db action) (safe : SnapshotSafe state.db action)
  (taken : trackedStep state action = some next)
include consistent snapshot met safe taken

theorem deleting_older_step (handle : Nat) (rid : Rid) (record : Record)
    (started : (next.db.trxs handle).started = true) (stored : next.db.records rid = some record)
    (deleting : record.endXid < 0) (settled : 0 < record.beginXid) :
    record.beginXid < (next.db.trxs handle).trxId := by
  rcases started_before taken started with ⟨before, sameId⟩ | ⟨rfl, -, drawn⟩
  · rw [sameId]
    rcases deleting_before consistent snapshot taken stored deleting settled with
      storedBefore | ⟨acting, old, rfl, storedBefore, sameBegin, visited⟩
    · exact snapshot.deletingOlder handle rid record before storedBefore deleting settled
    · have older := (safe old storedBefore visited).2 handle before
      have different := (begin_committed consistent storedBefore (by omega)).2 handle
      omega
  · rw [drawn, next_trx_id_eq consistent.ids.counterLow met]
    rcases deleting_before consistent snapshot taken stored deleting settled with
      storedBefore | ⟨acting, old, isDelete, -⟩
    · have := (begin_committed consistent storedBefore settled).1
      omega
    · cases isDelete

theorem snapshot_consistent_step : SnapshotConsistent next where
  ownUndeleted := own_undeleted_step consistent snapshot safe taken
  stampingYounger := stamping_younger_step consistent snapshot met safe taken
  deletingOlder := deleting_older_step consistent snapshot met safe taken

end

theorem reaches_snapshot_consistent (run : Reaches trackedStep KeepsSnapshots Tracked.empty state) :
    Traced state ∧ SnapshotConsistent state := by
  refine reaches_invariant (fun state => Traced state ∧ SnapshotConsistent state)
    (fun before action next both met taken => ?_) ⟨traced_empty, snapshot_consistent_empty⟩ run
  exact ⟨traced_step both.1 met.1 taken,
    snapshot_consistent_step both.1.consistent both.2 met.1 met.2 taken⟩

theorem seen_step {action : Action} (consistent : Consistent state)
    (met : LeavesCommittedDeletes state.db action) (taken : trackedStep state action = some next)
    {t : Int} (drawn : t ≤ state.db.currentTrxId) (x : Int) :
    Seen next.history t x ↔ Seen state.history t x := by
  have low := consistent.ids.counterLow
  have fits := counter_fits_of_leaves met
  rcases decided_step taken x with ⟨same, -⟩ | ⟨rfl, -, started, decided⟩
  · simp only [Seen, same]
  · have uncommitted := ((consistent.ids.trx _).startedOpen started).1
    simp only [Seen]
    grind

theorem acting_unseen (consistent : Consistent state) (acting : Nat)
    (started : (state.db.trxs handle).started = true) (other : acting ≠ handle)
    (uncommitted : state.history.commits (state.db.trxs acting).trxId = none) :
    ¬Seen state.history (state.db.trxs handle).trxId (state.db.trxs acting).trxId := by
  have running := ((consistent.ids.trx handle).startedLoop started).2
  rintro (same | ⟨c, committed, -⟩)
  · exact other (consistent.ids.idUnique handle acting running same.symm).symm
  · rw [uncommitted] at committed
    cases committed

theorem in_snapshot_congr {before after : History} {t : Int}
    (rows : after.rows rid = before.rows rid) (seen : ∀ x, Seen after t x ↔ Seen before t x) :
    InSnapshot after t rid ↔ InSnapshot before t rid := by
  simp only [InSnapshot, rows, seen]

theorem in_snapshot_step {action : Action} (consistent : Consistent state)
    (met : LeavesCommittedDeletes state.db action) (taken : trackedStep state action = some next)
    (started : (state.db.trxs handle).started = true) (other : action.handle ≠ handle) (rid : Rid) :
    InSnapshot next.history (state.db.trxs handle).trxId rid ↔
      InSnapshot state.history (state.db.trxs handle).trxId rid := by
  have seen := seen_step consistent met taken (consistent.ids.trx handle).idHigh
  rcases slot_step taken rid with ⟨-, same⟩ | change
  · exact in_snapshot_congr same seen
  simp only [InSnapshot, seen]
  generalize next.db.records rid = written, next.history.rows rid = after at change ⊢
  cases change with
  | @insert acting actingStarted free =>
    have unseen := acting_unseen consistent acting started other
      ((consistent.ids.trx acting).startedOpen actingStarted).1
    have missing := (consistent.slots rid).present.mpr free
    simp [missing, unseen]
  | @delete acting record actingStarted stored =>
    have unseen := acting_unseen consistent acting started other
      ((consistent.ids.trx acting).startedOpen actingStarted).1
    obtain ⟨row, found, -⟩ := row_of_record consistent.slots stored
    simp [found, unseen]
  | commitInsert | commitDelete => rfl
  | @rollbackInsert acting rest loop =>
    obtain ⟨ahead, aborted⟩ := aborting_head consistent.ids loop
    have unseen := acting_unseen consistent acting started other
      (consistent.ids.abortedBound _ aborted).1
    obtain ⟨row, found, inserter⟩ := (consistent.operations acting).insertRow rid ahead
    simp [found, inserter, unseen]
  | @rollbackDelete acting rest loop =>
    obtain ⟨ahead, aborted⟩ := aborting_head consistent.ids loop
    have unseen := acting_unseen consistent acting started other
      (consistent.ids.abortedBound _ aborted).1
    obtain ⟨row, found, -⟩ := (consistent.operations acting).deleteRow rid ahead
    simp only [found, map_some, some.injEq, exists_eq_left', mem_filter, decide_eq_true_eq]
    refine and_congr_right fun _ => ⟨fun all x deleter => ?_, fun all x kept => all x kept.1⟩
    by_cases own : x = (state.db.trxs acting).trxId
    · exact own ▸ unseen
    · exact all x ⟨deleter, own⟩

/-- In the guarded runs a read-only visit reports exactly the snapshot of the
visitor, and it reports the same rows as long as the visitor itself does
nothing, whatever the others do in between. -/
theorem visits_report_snapshot {state : Tracked}
    (run : Reaches trackedStep KeepsSnapshots Tracked.empty state) {handle : Nat}
    (started : (state.db.trxs handle).started = true) :
    (∀ rid, visibleTo state.db (state.db.trxs handle).trxId rid = true ↔
      InSnapshot state.history (state.db.trxs handle).trxId rid) ∧
    ∀ later, Reaches trackedStep
        (fun before action => KeepsSnapshots before action ∧ action.handle ≠ handle) state later →
      ∀ rid, visibleTo later.db (state.db.trxs handle).trxId rid =
        visibleTo state.db (state.db.trxs handle).trxId rid := by
  obtain ⟨traced, snapshot⟩ := reaches_snapshot_consistent run
  have verdict := visible_iff_in_snapshot traced.consistent snapshot started
  refine ⟨verdict, fun later laterRun rid => ?_⟩
  obtain ⟨laterTraced, laterSnapshot, sameTrx, sameSnapshot⟩ :=
    reaches_invariant
      (fun after => Traced after ∧ SnapshotConsistent after ∧
        after.db.trxs handle = state.db.trxs handle ∧
        (InSnapshot after.history (state.db.trxs handle).trxId rid ↔
          InSnapshot state.history (state.db.trxs handle).trxId rid))
      (fun before action next ⟨traced, snapshot, sameTrx, sameSnapshot⟩ met taken => by
        have still : (before.db.trxs handle).started = true := by rw [sameTrx]; exact started
        have stepSnapshot := in_snapshot_step traced.consistent met.1.1 taken still met.2 rid
        rw [sameTrx] at stepSnapshot
        exact ⟨traced_step traced met.1.1 taken,
          snapshot_consistent_step traced.consistent snapshot met.1.1 met.1.2 taken,
          ((object_step taken handle).resolve_right fun acts => met.2 acts.1).trans sameTrx,
          stepSnapshot.trans sameSnapshot⟩)
      ⟨traced, snapshot, rfl, Iff.rfl⟩ laterRun
  have laterVerdict := visible_iff_in_snapshot laterTraced.consistent laterSnapshot
    (by rw [sameTrx]; exact started) rid
  rw [sameTrx] at laterVerdict
  exact Bool.eq_iff_iff.mpr (laterVerdict.trans (sameSnapshot.trans (verdict rid).symm))

theorem visits_report_snapshot_after_commit :
    ∃ state, Reaches trackedStep KeepsSnapshots Tracked.empty state ∧
      (state.db.trxs 1).started = true ∧ (state.db.trxs 1).trxId = 3 ∧
      InSnapshot state.history 3 exampleRid ∧ visibleTo state.db 3 exampleRid = true := by
  have quiet : ∀ state : Tracked, (∀ other, (state.db.trxs other).endLoop = .none) →
      state.db.currentTrxId + 1 < maxTrxId → ∀ handle, KeepsSnapshots state (.startIfNeed handle) :=
    fun state idle left handle => ⟨left, .inr fun other ⟨_, _, _, loop⟩ => by
      rw [idle other] at loop
      cases loop⟩
  have left : ∀ state : Tracked, state.db.currentTrxId + 1 < maxTrxId →
      KeepsSnapshots state (.commit 0) := fun _ left => ⟨left, trivial⟩
  have opened : Reaches trackedStep KeepsSnapshots Tracked.empty _ :=
    .tail .refl (quiet Tracked.empty (fun _ => rfl) (by decide) 0) rfl
  have inserted := opened.tail
    (⟨trivial, trivial⟩ : KeepsSnapshots _ (.insertRecord 0 exampleRid)) rfl
  have begun := inserted.tail (left _ (by decide)) rfl
  have stamped := begun.tail (⟨trivial, trivial⟩ : KeepsSnapshots _ (.commitNext 0)) rfl
  have ended := stamped.tail (⟨trivial, trivial⟩ : KeepsSnapshots _ (.commitEnd 0)) rfl
  have reading := ended.tail (quiet _ (fun other => by cases other <;> rfl) (by decide) 1) rfl
  have verdict := (visits_report_snapshot reading
    (show (Db.trxs _ 1).started = true from rfl)).1 exampleRid
  exact ⟨_, reading, rfl, rfl, verdict.mp rfl, rfl⟩

/-- The run ends in a state where a visit by the transaction of `handle` and its
snapshot disagree about the row. -/
def VisitMisses (actions : List Action) (handle : Nat) : Prop :=
  ∃ state, run trackedStep AnyStep Tracked.empty actions = some state ∧
    (state.db.trxs handle).started = true ∧
    ¬(visibleTo state.db (state.db.trxs handle).trxId exampleRid = true ↔
      InSnapshot state.history (state.db.trxs handle).trxId exampleRid)

/-- A transaction still sees its own insert after deleting it; a transaction
that starts inside a commit misses the rows not stamped yet; and a row inserted
after a transaction started appears to it while a third one deletes the row. -/
theorem visits_miss_snapshot :
    VisitMisses [.startIfNeed 0, .insertRecord 0 exampleRid, .deleteRecord 0 exampleRid] 0 ∧
    VisitMisses [.startIfNeed 0, .insertRecord 0 exampleRid, .commit 0, .startIfNeed 1] 1 ∧
    VisitMisses [.startIfNeed 1, .startIfNeed 0, .insertRecord 0 exampleRid, .commit 0,
      .commitNext 0, .commitEnd 0, .startIfNeed 0, .deleteRecord 0 exampleRid] 1 := by
  refine ⟨⟨_, rfl, rfl, ?_⟩, ⟨_, rfl, rfl, ?_⟩, ⟨_, rfl, rfl, ?_⟩⟩
  · intro same
    obtain ⟨row, found, -, undeleted⟩ := same.mp rfl
    cases found
    exact undeleted 1 mem_cons_self (.inl rfl)
  · intro same
    have visible := same.mpr ⟨⟨1, []⟩, rfl, .inr ⟨2, rfl, by decide⟩, nofun⟩
    cases visible
  · intro same
    obtain ⟨row, found, seen, -⟩ := same.mp rfl
    cases found
    rcases seen with own | ⟨c, committed, smaller⟩
    · cases own
    · cases committed
      revert smaller
      decide

end CsuDbms.MvccTrxModel
