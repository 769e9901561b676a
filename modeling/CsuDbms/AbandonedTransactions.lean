import CsuDbms.SessionModel

/-!
# What a session leaves behind when it drops its transaction

Nothing rolls a transaction back when its object is deleted.
The proof needs no uniqueness of ids: a negative stamp is always written
together with an operation of a living object, and whatever takes the operation
off the object also settles the stamp.
-/

namespace CsuDbms.SessionModel

open MvccTrxModel TransitionSystem List Option Function Server

/-- Every stamp of an uncommitted change belongs to a transaction that some
session still holds, and the change is ahead of it. -/
def NoOrphans (server : Server) : Prop :=
  ∀ rid record type, server.heap.records rid = some record → record.stamp type < 0 →
    ∃ s session kit, server.sessions s = some session ∧ session.trx = some kit ∧
      (server.heap.trxs s).trxId = -record.stamp type ∧
      ⟨type, rid⟩ ∈ (server.heap.trxs s).pending

def Abandons (server : Server) (s : Nat) : ServerAction → Prop
  | .use other _ | .login other _ | .disconnect other => other = s
  | .dropDatabase other name _ =>
    other = s ∧ ∃ session, server.sessions s = some session ∧
      server.findDb name = some session.db
  | _ => False

/-- The uncommitted changes of session `s` are undone: its rows are gone, and
the rows it deleted are alive. -/
def Undone (before after : Server) (s : Nat) : Prop :=
  (∀ rid, ⟨.insert, rid⟩ ∈ (before.heap.trxs s).pending → after.heap.records rid = none) ∧
    ∀ rid, ⟨.delete, rid⟩ ∈ (before.heap.trxs s).pending →
      ∀ record, after.heap.records rid = some record → record.endXid = maxTrxId

/-- A session leaves its database with nothing ahead of its transaction or, where it drops it,
with changes in that database only; the counters do not run out. -/
def LeavesIdle (home : Int → Nat) (server : Server) : ServerAction → Prop
  | .use s _ | .login s _ | .disconnect s => (server.heap.trxs s).pending = []
  | .dropDatabase s name closed =>
    ∀ session ∈ server.sessions s, server.findDb name = some session.db →
      ∀ operation ∈ (server.heap.trxs s).pending,
        closed = true ∧ session.db = home operation.rid.tableId
  | .statement action =>
    ∀ session ∈ server.sessions action.handle,
      CounterFits { server.heap with
        currentTrxId := server.counters (session.trx.getD session.db) } action
  | .connect _ | .createDatabase _ | .currentTrx _ => True

instance (home : Int → Nat) (server : Server) (action : ServerAction) :
    Decidable (LeavesIdle home server action) := by
  cases action <;> dsimp only [LeavesIdle] <;> infer_instance

def AnyStatement (_ : Server) (_ : ServerAction) : Prop := True

instance (server : Server) (action : ServerAction) : Decidable (AnyStatement server action) :=
  inferInstanceAs (Decidable True)

structure Phased (trx : MvccTrx) : Prop where
  startedLoop : trx.started = true → trx.endLoop = .none
  idle : trx.started = false → trx.endLoop = .none → trx.operations = []
  commitIds : ∀ commitXid rest, trx.endLoop = .commit commitXid rest → 0 ≤ commitXid

theorem phased_new : Phased {} where
  startedLoop := nofun
  idle := fun _ _ => rfl
  commitIds := nofun

variable {action : Action}

theorem phased_step {state next : Tracked} (low : 0 ≤ state.db.currentTrxId)
    (met : CounterFits state.db action) (phased : ∀ s, Phased (state.db.trxs s))
    (taken : trackedStep state action = some next) (s : Nat) : Phased (next.db.trxs s) := by
  rcases object_step taken s with same | ⟨rfl, object⟩
  · rw [same]
    exact phased s
  have old := phased action.handle
  generalize next.db.trxs action.handle = trx at object ⊢
  cases object with
  | start looping => exact ⟨fun _ => looping, nofun, by simp [looping]⟩
  | operate started =>
    have looping := old.startedLoop started
    exact ⟨fun _ => looping, by simp [started], by simp [looping]⟩
  | commit =>
    have drawn := next_trx_id_eq low met
    refine ⟨nofun, nofun, ?_⟩
    rintro commitXid rest ⟨⟩
    omega
  | commitNext loop =>
    refine ⟨fun started => ?_, nofun, ?_⟩
    · cases (old.startedLoop started).symm.trans loop
    · rintro _ _ ⟨⟩
      exact old.commitIds _ _ loop
  | rollback => exact ⟨nofun, nofun, nofun⟩
  | rollbackNext loop =>
    refine ⟨fun started => ?_, nofun, nofun⟩
    cases (old.startedLoop started).symm.trans loop
  | drop => exact phased_new

def StampsHeld (heap : Db) : Prop :=
  ∀ rid record type, heap.records rid = some record → record.stamp type < 0 →
    ∃ s, (heap.trxs s).trxId = -record.stamp type ∧ ⟨type, rid⟩ ∈ (heap.trxs s).pending

variable {s : Nat}

theorem stamps_held_idle {heap next : Db} {trx : MvccTrx} (held : StampsHeld heap)
    (records : ∀ rid record, next.records rid = some record → heap.records rid = some record)
    (trxs : next.trxs = update heap.trxs s trx)
    (idle : ∀ type rid record, next.records rid = some record → ⟨type, rid⟩ ∉ (heap.trxs s).pending) :
    StampsHeld next := by
  intro rid record type stored negative
  obtain ⟨owner, id, ahead⟩ := held rid record type (records rid record stored) negative
  have different : owner ≠ s := by
    rintro rfl
    exact idle type rid record stored ahead
  exact ⟨owner, by rw [trxs, update_of_ne different]; exact ⟨id, ahead⟩⟩

theorem stamps_held_step {state next : Tracked}
    (phased : ∀ s, Phased (state.db.trxs s)) (held : StampsHeld state.db)
    (kept : action ≠ .destroyTrx action.handle)
    (taken : trackedStep state action = some next) : StampsHeld next.db := by
  obtain ⟨trx, trxs, effect⟩ := stamp_step (fun s => (phased s).startedLoop)
    (fun s commitXid operation rest => (phased s).commitIds commitXid _) taken
  cases effect with
  | keeps change id current =>
    intro rid record type stored negative
    rcases change type rid record stored with settled | ⟨own, ahead⟩ | ⟨old, before, same, keeps⟩
    · omega
    · exact ⟨action.handle, by simp only [trxs, update_self]; exact ⟨by omega, ahead⟩⟩
    · obtain ⟨owner, ownerId, ahead⟩ := held rid old type before (by omega)
      refine ⟨owner, ?_⟩
      rw [trxs, update_apply]
      split
      · rename_i own
        subst own
        exact ⟨by omega, keeps ahead⟩
      · exact ⟨by omega, ahead⟩
  | draws acts unstarted looping records id current =>
    apply stamps_held_idle held (fun rid record stored => records ▸ stored) trxs
    intro type rid record _ ahead
    rw [pending_running looping, (phased action.handle).idle unstarted looping] at ahead
    cases ahead
  | drops records id current idle =>
    apply stamps_held_idle held (fun rid record stored => records ▸ stored) trxs
    intro type rid record _ ahead
    rw [idle.resolve_right kept] at ahead
    cases ahead

structure ServerOwned (server : Server) : Prop where
  counters : ∀ db, 0 ≤ server.counters db
  phased : ∀ s, Phased (server.heap.trxs s)
  held : StampsHeld server.heap
  live : ∀ s, (server.heap.trxs s).pending ≠ [] →
    ∃ session kit, server.sessions s = some session ∧ session.trx = some kit

theorem server_owned_start : ServerOwned start where
  counters := fun _ => Int.le_refl 0
  phased := fun _ => phased_new
  held := nofun
  live := fun _ ahead => absurd rfl ahead

theorem no_orphans_of_owned {server : Server} (owned : ServerOwned server) : NoOrphans server := by
  intro rid record type stored negative
  obtain ⟨s, id, ahead⟩ := owned.held rid record type stored negative
  obtain ⟨session, kit, found, trx⟩ := owned.live s (ne_nil_of_mem ahead)
  exact ⟨s, session, kit, found, trx, id, ahead⟩

variable {home : Int → Nat} {server next : Server}

theorem statement_cases (taken : server.statement home action = some next) :
    ∃ session heap, server.sessions action.handle = some session ∧
      action ≠ .destroyTrx action.handle ∧
      step { server.heap with
        currentTrxId := server.counters (session.trx.getD session.db) } action = some heap ∧
      next = { server with
        heap := heap
        counters := update server.counters (session.trx.getD session.db)
          heap.currentTrxId
        sessions := update server.sessions action.handle
          (some { session with
            trx := if endsTrx action then none else some (session.trx.getD session.db) }) } := by
  unfold statement at taken
  split at taken
  · cases taken
  · rename_i session found
    split at taken
    · rename_i kit db held _
      have sameKit : session.trx.getD session.db = kit := by
        split at held
        · exact some.inj held
        · simp [held]
      simp only [ite_none_right_eq_some] at taken
      obtain ⟨⟨-, -, -, kept⟩, stepped⟩ := taken
      obtain ⟨heap, moved, rfl⟩ := map_eq_some_iff.mp stepped
      exact ⟨session, heap, found, kept, sameKit ▸ moved, by rw [sameKit]⟩
    · cases taken

theorem ends_trx_step {heap after : Db} (moved : step heap action = some after)
    (ends : endsTrx action = true) : after.trxs action.handle = {} := by
  cases action with
  | commitEnd s =>
    obtain ⟨_, -, rfl⟩ := step_commit_end moved
    exact update_self ..
  | rollbackEnd s =>
    obtain ⟨-, rfl⟩ := step_rollback_end moved
    exact update_self ..
  | startIfNeed | insertRecord | deleteRecord | commit | commitNext | rollback | rollbackNext
  | destroyTrx => cases ends

section

variable (owned : ServerOwned server)
include owned

theorem server_owned_statement (met : LeavesIdle home server (.statement action))
    (taken : server.statement home action = some next) : ServerOwned next := by
  obtain ⟨session, heap, found, kept, moved, rfl⟩ := statement_cases taken
  have fits := met session found
  have low := owned.counters (session.trx.getD session.db)
  have tracked : trackedStep
      ⟨{ server.heap with currentTrxId := server.counters (session.trx.getD session.db) },
        .empty⟩ action = some ⟨heap, _⟩ := congrArg (Option.map _) moved
  have grows := (ids_after_step low fits tracked).1
  obtain ⟨trx, trxs, effect⟩ := stamp_step (fun s => (owned.phased s).startedLoop)
    (fun s commitXid operation rest => (owned.phased s).commitIds commitXid _) tracked
  constructor
  · intro db
    simp only [update_apply]
    split
    · exact Int.le_trans low grows
    · exact owned.counters db
  · exact phased_step low fits owned.phased tracked
  · exact stamps_held_step owned.phased owned.held kept tracked
  · intro s ahead
    simp only [update_apply]
    split
    · rename_i own
      subst own
      refine ⟨_, session.trx.getD session.db, rfl, if_neg fun ends => ahead ?_⟩
      simp only [ends_trx_step moved ends]
      rfl
    · rename_i different
      have other : heap.trxs s = server.heap.trxs s :=
        (congrFun trxs s).trans (update_of_ne different ..)
      exact owned.live s (other ▸ ahead)

theorem server_owned_destroy {session : Option Session}
    (idle : (server.heap.trxs s).pending = []) :
    ServerOwned ((server.destroyTrx s).setSession s session) := by
  have trxs : ∀ other, other ≠ s →
      ((server.destroyTrx s).setSession s session).heap.trxs other = server.heap.trxs other :=
    fun other different => update_of_ne different ..
  constructor
  · exact owned.counters
  · intro other
    by_cases own : other = s
    · subst own
      simpa [destroyTrx, setSession] using phased_new
    · rw [trxs other own]
      exact owned.phased other
  · refine stamps_held_idle owned.held (fun _ _ stored => stored) rfl ?_
    intro type rid record _ ahead
    rw [idle] at ahead
    cases ahead
  · intro other ahead
    by_cases own : other = s
    · subst own
      simp [destroyTrx, setSession, MvccTrx.pending] at ahead
    · rw [trxs other own] at ahead
      obtain ⟨held, kit, found, trx⟩ := owned.live other ahead
      exact ⟨held, kit, by simpa [setSession, destroyTrx, own] using found, trx⟩

theorem server_owned_session {session : Session}
    (keeps : ∀ before kit, server.sessions s = some before → before.trx = some kit →
      session.trx = some kit) : ServerOwned (server.setSession s (some session)) := by
  refine ⟨owned.counters, owned.phased, owned.held, fun other ahead => ?_⟩
  obtain ⟨held, kit, found, trx⟩ := owned.live other ahead
  by_cases own : other = s
  · subst own
    exact ⟨session, kit, by simp [setSession], keeps held kit found trx⟩
  · exact ⟨held, kit, by simpa [setSession, own] using found, trx⟩

theorem server_owned_close {name : String} {db : Nat} :
    ServerOwned (server.closeDb home name db) := by
  refine ⟨owned.counters, owned.phased, ?_, owned.live⟩
  intro rid record type stored negative
  simp only [closeDb] at stored
  split at stored
  · cases stored
  · exact owned.held rid record type stored negative

theorem server_owned_step {action : ServerAction}
    (met : LeavesIdle home server action) (taken : serverStep home server action = some next) :
    ServerOwned next := by
  cases action with
  | connect s =>
    simp only [serverStep, ite_none_right_eq_some] at taken
    obtain ⟨absent, opened⟩ := taken
    obtain ⟨db, -, rfl⟩ := map_eq_some_iff.mp opened
    apply server_owned_session owned
    intro before kit found
    rw [absent] at found
    cases found
  | createDatabase name =>
    obtain ⟨-, ⟨⟩⟩ := ite_none_right_eq_some.mp taken
    refine ⟨fun db => ?_, owned.phased, owned.held, owned.live⟩
    simp only [update_apply]
    split
    · exact Int.le_refl 0
    · exact owned.counters db
  | statement action => exact server_owned_statement owned met taken
  | use s name | disconnect s =>
    simp only [serverStep] at taken
    split at taken
    · simp only [ite_none_right_eq_some, some.injEq] at taken
      obtain ⟨-, rfl⟩ := taken
      exact server_owned_destroy owned met
    · cases taken
  | currentTrx s | login s name =>
    simp only [serverStep] at taken
    split at taken
    · simp only [ite_none_right_eq_some, some.injEq] at taken
      obtain ⟨-, rfl⟩ := taken
      exact server_owned_session owned (by simp +contextual [*])
    · cases taken
  | dropDatabase s name closed =>
    simp only [serverStep] at taken
    split at taken
    · rename_i session db sys found _ _
      simp only [ite_none_right_eq_some, some.injEq] at taken
      obtain ⟨-, rfl⟩ := taken
      have moved : ServerOwned (server.setSession s
          (some { session with db := if session.db = db then sys else session.db })) :=
        server_owned_session owned (by simp +contextual [found])
      split
      · exact server_owned_close moved
      · exact moved
    · cases taken

end

theorem undone_of_idle (idle : (server.heap.trxs s).pending = []) :
    Undone server next s := by
  constructor <;> simp [idle]

theorem undone_step {action : ServerAction} (met : LeavesIdle home server action)
    (taken : serverStep home server action = some next) (abandons : Abandons server s action) :
    Undone server next s := by
  cases action with
  | use other name | login other name | disconnect other =>
    obtain rfl : other = s := abandons
    exact undone_of_idle met
  | dropDatabase other name closed =>
    obtain ⟨rfl, session, found, named⟩ := abandons
    -- The records of a dropped database are gone with it.
    have gone : ∀ type rid, ⟨type, rid⟩ ∈ (server.heap.trxs other).pending →
        next.heap.records rid = none := by
      intro type rid ahead
      obtain ⟨closes, own⟩ := met session found named ⟨type, rid⟩ ahead
      simp only [serverStep, found, named] at taken
      split at taken
      · rename_i opened db sys same dropped _
        cases same
        cases dropped
        simp only [ite_none_right_eq_some, some.injEq] at taken
        obtain ⟨-, rfl⟩ := taken
        simp [closes, closeDb, own]
      · cases taken
    refine ⟨gone .insert, fun rid ahead record stored => ?_⟩
    rw [gone .delete rid ahead] at stored
    cases stored
  | connect | createDatabase | currentTrx | statement => exact abandons.elim

/-- In a run whose sessions leave a database only with nothing ahead of their
transaction, every change that a leaving session had not committed is undone,
and no record carries the stamp of a transaction that is gone. -/
theorem abandoned_transactions_leave_nothing
    (run : Reaches (serverStep home) (LeavesIdle home) start server) :
    NoOrphans server ∧ ∀ action next s, LeavesIdle home server action →
      serverStep home server action = some next → Abandons server s action →
      Undone server next s := by
  constructor
  · apply no_orphans_of_owned
    exact reaches_invariant ServerOwned (fun _ _ _ owned => server_owned_step owned) server_owned_start run
  · intro action next s met taken abandons
    exact undone_step met taken abandons

def exampleHome (table : Int) : Nat := table.toNat

def shopRow : Rid := { tableId := 1, pageNum := 1, slotNum := 0 }

def insertIntoShop : List ServerAction :=
  [.createDatabase "shop", .connect 0, .use 0 "shop", .statement (.startIfNeed 0),
    .statement (.insertRecord 0 shopRow)]

def commitThenUse : List ServerAction :=
  insertIntoShop ++ [.statement (.commit 0), .statement (.commitNext 0),
    .statement (.commitEnd 0), .use 0 "sys"]

theorem commit_then_use_runs :
    (run (serverStep exampleHome) (LeavesIdle exampleHome) start commitThenUse).isSome =
      true := by decide +kernel

theorem abandoned_transactions_leave_nothing_after_commit :
    ∃ server, Reaches (serverStep exampleHome) (LeavesIdle exampleHome) start server ∧
      (server.heap.records shopRow).map Record.beginXid = some 2 ∧ NoOrphans server :=
  ⟨_, run_get_reaches commit_then_use_runs, by decide +kernel,
    (abandoned_transactions_leave_nothing (run_get_reaches commit_then_use_runs)).1⟩

theorem insert_into_shop_runs :
    (run (serverStep exampleHome) AnyStatement start insertIntoShop).isSome = true := by
  decide +kernel

def shopServer : Server :=
  (run (serverStep exampleHome) AnyStatement start insertIntoShop).get insert_into_shop_runs

theorem use_from_shop_runs :
    (serverStep exampleHome shopServer (.use 0 "sys")).isSome = true := by
  decide +kernel

/-- `USE` without `COMMIT` leaves the row stamped with the id of a transaction
that no session holds any more. -/
theorem use_orphans_inserted_row :
    ∃ server next, Reaches (serverStep exampleHome) AnyStatement start server ∧
      serverStep exampleHome server (.use 0 "sys") = some next ∧
      Abandons server 0 (.use 0 "sys") ∧ ¬Undone server next 0 ∧ ¬NoOrphans next := by
  refine ⟨shopServer, _, run_get_reaches insert_into_shop_runs,
    (some_get use_from_shop_runs).symm, rfl, ?_, ?_⟩
  · intro undone
    have gone := undone.1 shopRow (by decide +kernel)
    have stays : (((serverStep exampleHome shopServer (.use 0 "sys")).get
        use_from_shop_runs).heap.records shopRow).isSome = true := by decide +kernel
    rw [gone] at stays
    cases stays
  · intro orphanless
    obtain ⟨s, session, kit, found, trx, -⟩ :=
      orphanless shopRow ⟨-1, maxTrxId⟩ .insert (by decide +kernel) (by decide)
    cases s with
    | zero =>
      have idle : (((serverStep exampleHome shopServer (.use 0 "sys")).get
          use_from_shop_runs).sessions 0).bind Session.trx = none := by decide +kernel
      rw [found, bind_some, trx] at idle
      cases idle
    | succ other => cases found

end CsuDbms.SessionModel
