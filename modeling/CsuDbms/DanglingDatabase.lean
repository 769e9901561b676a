import CsuDbms.AbandonedTransactions

/-!
# Pointers of sessions into databases

A session holds a pointer to its database and, apart from it, a transaction that
was made by the kit of some database. `DROP DATABASE` deletes the object under
all sessions that point to it, and it moves its own session to `sys` with the
transaction it has; `LOGIN` moves the session in the same way.
-/

namespace CsuDbms.SessionModel

open MvccTrxModel TransitionSystem List Option Function Server

/-- Every session points to an open database, and its transaction is of that database. -/
def NoDangling (server : Server) : Prop :=
  ∀ s session, server.sessions s = some session →
    server.isOpen session.db = true ∧ ∀ kit, session.trx = some kit → kit = session.db

/-- A login to another database has no transaction to take along. A dropped database is the
current one of no other session, and the session that drops it has no transaction there. -/
def KeepsPointers (server : Server) : ServerAction → Prop
  | .login s name => ∀ session, server.sessions s = some session →
      session.trx = none ∨ server.findDb name = some session.db
  | .dropDatabase s name closed =>
    (∀ session, server.sessions s = some session → server.findDb name = some session.db →
      session.trx = none) ∧
    (closed = true → ∀ other session, other ≠ s → server.sessions other = some session →
      server.findDb name ≠ some session.db)
  | _ => True

/-- The open databases have different names, and `sys` is one of them. -/
structure OpenedOnce (server : Server) : Prop where
  names : (server.opened.map Prod.fst).Nodup
  system : (server.findDb sysName).isSome

variable {home : Int → Nat} {server next : Server} {db : Nat}

theorem is_open_iff :
    server.isOpen db = true ↔ ∃ name, (name, db) ∈ server.opened := by
  simp [isOpen]

variable {name : String}

theorem find_db_mem (found : server.findDb name = some db) :
    (name, db) ∈ server.opened := by
  obtain ⟨front, back, opened, _⟩ := lookup_eq_some_iff.mp found
  rw [opened]
  simp

theorem find_db_open (found : server.findDb name = some db) :
    server.isOpen db = true :=
  is_open_iff.mpr ⟨name, find_db_mem found⟩

theorem open_after_close {label : String} {other : Nat}
    (listed : (label, other) ∈ server.opened) (other_name : label ≠ name) :
    (server.closeDb home name db).isOpen other = true :=
  is_open_iff.mpr ⟨label, mem_filter.mpr ⟨listed, by simpa using other_name⟩⟩

theorem open_after_close_other {other : Nat}
    (opened : server.isOpen other = true) (names : (server.opened.map Prod.fst).Nodup)
    (found : server.findDb name = some db) (different : other ≠ db) :
    (server.closeDb home name db).isOpen other = true := by
  obtain ⟨label, listed⟩ := is_open_iff.mp opened
  refine open_after_close listed fun same => ?_
  have pair := inj_on_of_nodup_map names listed (find_db_mem found) same
  exact different (congrArg Prod.snd pair)

theorem no_dangling_update {s : Nat} {session : Option Session} (whole : NoDangling server)
    (stays : ∀ db, server.isOpen db = true → next.isOpen db = true)
    (sessions : next.sessions = update server.sessions s session)
    (new : ∀ changed, session = some changed →
      next.isOpen changed.db = true ∧ ∀ kit, changed.trx = some kit → kit = changed.db) :
    NoDangling next := by
  intro other held found
  rw [sessions] at found
  by_cases same : other = s
  · subst same
    rw [update_self] at found
    exact new held found
  · rw [update_of_ne same] at found
    obtain ⟨opened, own⟩ := whole other held found
    exact ⟨stays held.db opened, own⟩

theorem no_dangling_statement {action : Action} (whole : NoDangling server)
    (taken : server.statement home action = some next) : NoDangling next := by
  obtain ⟨session, heap, found, _, _, rfl⟩ := statement_cases taken
  obtain ⟨opened, own⟩ := whole _ session found
  refine no_dangling_update whole (fun _ => id) rfl ?_
  rintro changed ⟨⟩
  refine ⟨opened, fun kit held => ?_⟩
  -- the object is of the kit it was made by, or it is made now
  have made : session.trx.getD session.db = session.db := by
    cases trx : session.trx with
    | none => rfl
    | some kit => exact own kit trx
  simp only [made] at held
  split at held
  · cases held
  · exact (some.inj held).symm

theorem no_dangling_drop {s : Nat} {closed : Bool} (whole : NoDangling server)
    (once : OpenedOnce server) (met : KeepsPointers server (.dropDatabase s name closed))
    (taken : serverStep home server (.dropDatabase s name closed) = some next) :
    NoDangling next := by
  obtain ⟨unowned, unused⟩ := met
  simp only [serverStep] at taken
  split at taken
  case h_2 => cases taken
  rename_i session db sys found target system
  obtain ⟨⟨_, _, other_name⟩, ⟨⟩⟩ := ite_none_right_eq_some.mp taken
  obtain ⟨opened, own⟩ := whole s session found
  have moved : NoDangling (server.setSession s
      (some { session with db := if session.db = db then sys else session.db })) := by
    refine no_dangling_update whole (fun _ => id) rfl ?_
    rintro changed ⟨⟩
    by_cases current : session.db = db
    · have idle := unowned session found (current ▸ target)
      simp only [current, if_true]
      exact ⟨find_db_open system, fun kit held => absurd (idle.symm.trans held) (by simp)⟩
    · simp only [current, if_false]
      exact ⟨opened, own⟩
  cases closed with
  | false => exact moved
  | true =>
    intro other held found_other
    obtain ⟨held_open, held_own⟩ := moved other held found_other
    refine ⟨?_, held_own⟩
    change (closeDb home (server.setSession s _) name db).isOpen held.db = true
    change update server.sessions s _ other = some held at found_other
    -- the dropping session has been moved, and no other one points there
    by_cases same : other = s
    · subst same
      rw [update_self] at found_other
      cases found_other
      by_cases current : session.db = db
      · simp only [current, if_true]
        exact open_after_close (find_db_mem system) other_name.symm
      · simp only [current, if_false]
        exact open_after_close_other opened once.names target current
    · rw [update_of_ne same] at found_other
      refine open_after_close_other held_open once.names target fun there => ?_
      exact unused rfl other held same found_other (there ▸ target)

theorem opened_once_same (once : OpenedOnce server) (opened : next.opened = server.opened) :
    OpenedOnce next := by
  constructor
  · rw [opened]
    exact once.names
  · rw [findDb, opened]
    exact once.system

theorem find_db_none (absent : server.findDb name = none) :
    name ∉ server.opened.map Prod.fst := by
  intro listed
  obtain ⟨entry, present, named⟩ := mem_map.mp listed
  exact bne_iff_ne.mp (lookup_eq_none_iff.mp absent entry present) named.symm

theorem find_db_after_close {label : String} (other : label ≠ name) :
    (server.closeDb home name db).findDb label = server.findDb label := by
  unfold closeDb findDb
  induction server.opened with
  | nil => rfl
  | cons entry rest ih =>
    rw [filter_cons]
    by_cases dropped : entry.1 = name
    · have different : (label == entry.1) = false := by
        rw [dropped]
        exact beq_eq_false_iff_ne.mpr other
      simp only [dropped, ne_eq, not_true_eq_false, decide_false, Bool.false_eq_true, if_false]
      rw [ih, lookup_cons, different]
    · simp only [dropped, ne_eq, not_false_eq_true, decide_true, if_true]
      rw [lookup_cons, lookup_cons, ih]

theorem opened_once_step {action : ServerAction} (once : OpenedOnce server)
    (taken : serverStep home server action = some next) : OpenedOnce next := by
  cases action with
  | connect s =>
    obtain ⟨_, found⟩ := ite_none_right_eq_some.mp taken
    obtain ⟨db, _, rfl⟩ := map_eq_some_iff.mp found
    exact opened_once_same once rfl
  | createDatabase name =>
    obtain ⟨absent, ⟨⟩⟩ := ite_none_right_eq_some.mp taken
    constructor
    · exact nodup_cons.mpr ⟨find_db_none absent, once.names⟩
    · simp only [findDb, lookup_cons]
      split
      · rfl
      · exact once.system
  | currentTrx s | use s name | login s name | disconnect s =>
    simp only [serverStep] at taken
    split at taken
    · obtain ⟨_, ⟨⟩⟩ := ite_none_right_eq_some.mp taken
      exact opened_once_same once rfl
    · cases taken
  | statement action =>
    obtain ⟨session, heap, _, _, _, rfl⟩ := statement_cases taken
    exact opened_once_same once rfl
  | dropDatabase s name closed =>
    simp only [serverStep] at taken
    split at taken
    · obtain ⟨⟨_, _, other_name⟩, ⟨⟩⟩ := ite_none_right_eq_some.mp taken
      cases closed with
      | false => exact opened_once_same once rfl
      | true =>
        constructor
        · exact once.names.sublist ((filter_sublist).map Prod.fst)
        · exact (congrArg isSome (find_db_after_close other_name.symm)).trans once.system
    · cases taken

theorem no_dangling_step {action : ServerAction} (whole : NoDangling server)
    (once : OpenedOnce server) (met : KeepsPointers server action)
    (taken : serverStep home server action = some next) : NoDangling next := by
  cases action with
  | connect s =>
    obtain ⟨_, found⟩ := ite_none_right_eq_some.mp taken
    obtain ⟨db, system, rfl⟩ := map_eq_some_iff.mp found
    refine no_dangling_update whole (fun _ => id) rfl ?_
    rintro changed ⟨⟩
    exact ⟨find_db_open system, fun kit held => by cases held⟩
  | createDatabase name =>
    obtain ⟨_, ⟨⟩⟩ := ite_none_right_eq_some.mp taken
    intro s session found
    obtain ⟨opened, own⟩ := whole s session found
    obtain ⟨label, listed⟩ := is_open_iff.mp opened
    exact ⟨is_open_iff.mpr ⟨label, mem_cons_of_mem _ listed⟩, own⟩
  | currentTrx s =>
    simp only [serverStep] at taken
    split at taken
    next session found =>
      obtain ⟨opened, ⟨⟩⟩ := ite_none_right_eq_some.mp taken
      refine no_dangling_update whole (fun _ => id) rfl ?_
      rintro changed ⟨⟩
      refine ⟨opened, fun kit held => ?_⟩
      cases trx : session.trx with
      | none => simpa [trx] using held.symm
      | some made =>
        obtain rfl : made = kit := by simpa [trx] using held
        exact (whole s session found).2 made trx
    next => cases taken
  | statement action => exact no_dangling_statement whole taken
  | use s name =>
    simp only [serverStep] at taken
    split at taken
    next session db found target =>
      obtain ⟨_, ⟨⟩⟩ := ite_none_right_eq_some.mp taken
      refine no_dangling_update whole (fun _ => id) rfl ?_
      rintro changed ⟨⟩
      exact ⟨find_db_open target, fun kit held => by cases held⟩
    next => cases taken
  | login s name =>
    simp only [serverStep] at taken
    split at taken
    next session db found target =>
      obtain ⟨_, ⟨⟩⟩ := ite_none_right_eq_some.mp taken
      refine no_dangling_update whole (fun _ => id) rfl ?_
      rintro changed ⟨⟩
      refine ⟨find_db_open target, fun kit held => ?_⟩
      rcases met session found with idle | current
      · exact absurd (idle.symm.trans held) (by simp)
      · have same : session.db = db := some.inj (current.symm.trans target)
        exact ((whole s session found).2 kit held).trans same
    next => cases taken
  | dropDatabase s name closed => exact no_dangling_drop whole once met taken
  | disconnect s =>
    simp only [serverStep] at taken
    split at taken
    · obtain ⟨_, ⟨⟩⟩ := ite_none_right_eq_some.mp taken
      refine no_dangling_update whole (fun _ => id) rfl ?_
      intro changed none
      cases none
    · cases taken

theorem kept_pointers_never_dangle
    (ran : Reaches (serverStep home) KeepsPointers start server) : NoDangling server := by
  have start : NoDangling start ∧ OpenedOnce start :=
    ⟨nofun, by decide, by decide⟩
  refine (reaches_invariant (fun server => NoDangling server ∧ OpenedOnce server) ?_ start ran).1
  intro state action next holds met taken
  exact ⟨no_dangling_step holds.1 holds.2 met taken, opened_once_step holds.2 taken⟩

def Moveless (_ : Server) (action : ServerAction) : Prop :=
  (∀ s name, action ≠ .login s name) ∧ ∀ s name closed, action ≠ .dropDatabase s name closed

instance (server : Server) : (action : ServerAction) → Decidable (Moveless server action)
  | .login s name => .isFalse fun moveless => moveless.1 s name rfl
  | .dropDatabase s name closed => .isFalse fun moveless => moveless.2 s name closed rfl
  | .connect _ | .createDatabase _ | .currentTrx _ | .statement _ | .use .. | .disconnect _ =>
    .isTrue ⟨nofun, nofun⟩

theorem moveless_keeps_pointers (server : Server) (action : ServerAction)
    (moveless : Moveless server action) : KeepsPointers server action := by
  cases action with
  | login s name => exact absurd rfl (moveless.1 s name)
  | dropDatabase s name closed => exact absurd rfl (moveless.2 s name closed)
  | connect | createDatabase | currentTrx | statement | use | disconnect => trivial

def settleInShop : List ServerAction :=
  commitThenUse ++ [.use 0 "shop", .connect 1]

theorem settle_in_shop_runs :
    (run (serverStep exampleHome) Moveless start settleInShop).isSome = true := by
  decide +kernel

def settledServer : Server :=
  (run (serverStep exampleHome) Moveless start settleInShop).get settle_in_shop_runs

theorem drop_from_settled_runs :
    (serverStep exampleHome settledServer (.dropDatabase 0 "shop" true)).isSome = true := by
  decide +kernel

theorem settled_drop_keeps_pointers :
    KeepsPointers settledServer (.dropDatabase 0 "shop" true) := by
  constructor
  · intro session found _
    have idle : (settledServer.sessions 0).bind Session.trx = none := by decide +kernel
    rw [found] at idle
    exact idle
  · intro _ other session different found current
    match other with
    | 0 => exact different rfl
    | 1 =>
      have system : (settledServer.sessions 1).map Session.db = some 0 := by decide +kernel
      have shop : settledServer.findDb "shop" = some 1 := by decide +kernel
      rw [found] at system
      rw [shop] at current
      exact absurd (current.trans system) (by decide)
    | _ + 2 => cases found

/-- The first session drops the database that no other session uses. -/
theorem kept_pointers_never_dangle_after_drop :
    ∃ server, Reaches (serverStep exampleHome) KeepsPointers start server ∧
      server.findDb "shop" = none ∧ NoDangling server := by
  have settled : Reaches (serverStep exampleHome) KeepsPointers start settledServer :=
    reaches_mono moveless_keeps_pointers (run_get_reaches settle_in_shop_runs)
  have dropped := settled.tail settled_drop_keeps_pointers
    (some_get drop_from_settled_runs).symm
  exact ⟨_, dropped, by decide +kernel, kept_pointers_never_dangle dropped⟩

def dropUnderOther : List ServerAction :=
  [.createDatabase "shop", .connect 0, .use 0 "shop", .connect 1, .use 1 "shop",
    .dropDatabase 0 "shop" true]

theorem drop_under_other_runs :
    (run (serverStep exampleHome) AnyStatement start dropUnderOther).isSome = true := by
  decide +kernel

theorem drop_database_leaves_dangling_session :
    ¬∀ server, Reaches (serverStep exampleHome) AnyStatement start server →
      NoDangling server := by
  intro never
  have whole := never _ (run_get_reaches drop_under_other_runs)
  have opened := (whole 1 ⟨1, none⟩ (by decide +kernel)).1
  revert opened
  decide +kernel

end CsuDbms.SessionModel
