import CsuDbms.PrivilegeConfinement

/-!
# Sessions and the accounts they authenticated as

A session keeps the id and the name of the account that logged in, but
authorization looks for grants by the name. The history of grants records the
account that had the name when a privilege was given. A name that is dropped and
created again belongs to another account, and a session of the first account is
still open under it.
-/

namespace CsuDbms.SystemCatalogModel

open TransitionSystem List Option Function SystemCatalog

variable {Salt Hash : Type}

def SystemCatalog.accountId (catalog : SystemCatalog Salt Hash) (username : String) :
    Option Nat :=
  (catalog.users.find? fun user => user.username == username).map UserRecord.id

structure BoundSession where
  session : Session
  userId : Option Nat
  deriving DecidableEq, Repr

structure GivenGrant where
  account : Option Nat
  grant : PrivilegeGrant
  deriving DecidableEq, Repr

structure Accounts (Salt Hash : Type) where
  catalog : SystemCatalog Salt Hash
  sessions : Nat → BoundSession
  given : List GivenGrant

/-- The account to which a privilege of a grant was given last. -/
def holder (given : List GivenGrant) (grant : PrivilegeGrant) (privilege : Privilege) :
    Option Nat :=
  (given.find? fun event =>
    event.grant.sameResource grant && event.grant.privileges.contains privilege).bind
      GivenGrant.account

/-- The grant of a command, as `execute_management` makes it. -/
def Command.givenGrant? : Command Salt → Option PrivilegeGrant
  | .grant privileges resource username =>
    (privileges.mapM validPrivilege).map fun list => privilegeGrant list resource username
  | _ => none

section Service

variable [DecidableEq Hash] (handler : Handler) (derive : Salt → String → Hash)

def accountStep (state : Accounts Salt Hash) (action : Nat × Command Salt) :
    Option (Accounts Salt Hash) :=
  let bound := state.sessions action.1
  let result := execute handler derive state.catalog bound.session action.2
  let userId := match action.2 with
    | .login username _ _ =>
      if result.1 = .success then state.catalog.accountId username else bound.userId
    | _ => bound.userId
  let given := match action.2.givenGrant? with
    | some grant =>
      if result.1 = .success then ⟨state.catalog.accountId grant.username, grant⟩ :: state.given
      else state.given
    | none => state.given
  some
    { catalog := result.2.1
      sessions := update state.sessions action.1 ⟨result.2.2, userId⟩
      given }

def Accounts.initial (salt : Salt) (hash : Hash) : Accounts Salt Hash where
  catalog := ⟨2, [⟨1, rootName, salt, hash⟩], ["sys"], []⟩
  sessions := fun _ => ⟨⟨"", false, "sys"⟩, none⟩
  given := []

/-- What authorizes a session other than root's was given to the account it logged in as. -/
def AuthorizedByOwnGrants (state : Accounts Salt Hash) : Prop :=
  ∀ connection, (state.sessions connection).session.authenticated = true →
    (state.sessions connection).session.username ≠ rootName →
    ∀ grant ∈ state.catalog.grants, grant.username = (state.sessions connection).session.username →
    ∀ requested database table, grant.allows requested database table = true →
    ∀ privilege ∈ grant.privileges,
      holder state.given grant privilege = (state.sessions connection).userId ∧
        (state.sessions connection).userId.isSome

/-- Nothing is granted to a name while a session of another account is open under it. -/
def NoStaleGrantee (state : Accounts Salt Hash) (action : Nat × Command Salt) : Prop :=
  match action.2 with
  | .grant _ _ username =>
    ∀ connection, (state.sessions connection).session.authenticated = true →
      (state.sessions connection).session.username = username →
        (state.sessions connection).userId = state.catalog.accountId username
  | _ => True

end Service

def GrantsKnown (catalog : SystemCatalog Salt Hash) (given : List GivenGrant) : Prop :=
  ∀ grant ∈ catalog.grants, (catalog.accountId grant.username).isSome ∧
    ∀ privilege ∈ grant.privileges,
      holder given grant privilege = catalog.accountId grant.username

def SessionsCurrent (catalog : SystemCatalog Salt Hash) (sessions : Nat → BoundSession) : Prop :=
  ∀ connection, (sessions connection).session.authenticated = true →
    ∀ grant ∈ catalog.grants, grant.username = (sessions connection).session.username →
      (sessions connection).userId = catalog.accountId grant.username

variable {state : Accounts Salt Hash}

theorem authorized_of_known (known : GrantsKnown state.catalog state.given)
    (current : SessionsCurrent state.catalog state.sessions) : AuthorizedByOwnGrants state := by
  intro connection authenticated _ grant listed named _ _ _ _ privilege held
  obtain ⟨exists_account, given⟩ := known grant listed
  have same := current connection authenticated grant listed named
  exact ⟨(given privilege held).trans same.symm, same ▸ exists_account⟩

theorem holder_cons (event : GivenGrant) (given : List GivenGrant) (grant : PrivilegeGrant)
    (privilege : Privilege) :
    holder (event :: given) grant privilege =
      if event.grant.sameResource grant = true ∧ privilege ∈ event.grant.privileges then
        event.account
      else holder given grant privilege := by
  unfold holder
  rw [find?_cons]
  by_cases same : event.grant.sameResource grant = true ∧ privilege ∈ event.grant.privileges
  · rw [if_pos same]
    simp [same.1, same.2]
  · rw [if_neg same]
    have other : (event.grant.sameResource grant && event.grant.privileges.contains privilege)
        = false := by
      rw [← Bool.not_eq_true, Bool.and_eq_true, contains_iff_mem]
      exact same
    rw [other]

variable {given : List GivenGrant}

theorem holder_congr {grant other : PrivilegeGrant}
    {privilege : Privilege} (same : grant.sameResource other = true) :
    holder given grant privilege = holder given other privilege := by
  have test : ∀ event : GivenGrant,
      event.grant.sameResource grant = event.grant.sameResource other := by
    intro event
    obtain ⟨username, scope, database, table⟩ := sameResource_iff.mp same
    simp only [PrivilegeGrant.sameResource, username, scope, database, table]
  simp only [holder, test]

def OnlyKeeps (before after : SystemCatalog Salt Hash) : Prop :=
  ∀ grant ∈ after.grants, ∃ old ∈ before.grants, old.sameResource grant = true ∧
    grant.privileges ⊆ old.privileges ∧
    after.accountId grant.username = before.accountId grant.username

theorem same_resource_refl (grant : PrivilegeGrant) : grant.sameResource grant = true :=
  sameResource_iff.mpr ⟨rfl, rfl, rfl, rfl⟩

variable {before after : SystemCatalog Salt Hash}

theorem only_keeps_of_accounts (grants : after.grants ⊆ before.grants)
    (accounts : ∀ grant ∈ after.grants,
      after.accountId grant.username = before.accountId grant.username) :
    OnlyKeeps before after :=
  fun grant listed =>
    ⟨grant, grants listed, same_resource_refl grant, fun _ => id, accounts grant listed⟩

theorem only_keeps_refl (catalog : SystemCatalog Salt Hash) : OnlyKeeps catalog catalog :=
  only_keeps_of_accounts (fun _ => id) fun _ _ => rfl

theorem known_of_keeps (known : GrantsKnown before given) (keeps : OnlyKeeps before after) :
    GrantsKnown after given := by
  intro grant listed
  obtain ⟨old, old_listed, same, smaller, account⟩ := keeps grant listed
  obtain ⟨exists_account, given_to⟩ := known old old_listed
  have same_name : old.username = grant.username := (sameResource_iff.mp same).1
  rw [account, ← same_name]
  refine ⟨exists_account, fun privilege held => ?_⟩
  rw [← holder_congr same]
  exact given_to privilege (smaller held)

theorem current_of_keeps {sessions : Nat → BoundSession}
    (current : SessionsCurrent before sessions) (keeps : OnlyKeeps before after) :
    SessionsCurrent after sessions := by
  intro connection authenticated grant listed named
  obtain ⟨old, old_listed, same, _, account⟩ := keeps grant listed
  have same_name : old.username = grant.username := (sameResource_iff.mp same).1
  rw [account, ← same_name]
  exact current connection authenticated old old_listed (same_name.trans named)

variable {catalog : SystemCatalog Salt Hash}

theorem account_id_isSome {username : String} :
    (catalog.accountId username).isSome = catalog.hasUser username := by
  rw [Bool.eq_iff_iff]
  simp [accountId, hasUser]

variable (derive : Salt → String → Hash)

theorem create_user_keeps_grants
    (known : GrantsKnown catalog given) (username password : String) (salt : Salt) :
    OnlyKeeps catalog (catalog.createUser derive username password salt).2 := by
  unfold createUser
  split_ifs
  · exact only_keeps_refl catalog
  · exact only_keeps_refl catalog
  · exact only_keeps_refl catalog
  · refine only_keeps_of_accounts (fun _ => id) fun grant listed => ?_
    -- an account that exists is found before the one that is appended
    have exists_account := (known grant listed).1
    rw [accountId, isSome_map] at exists_account
    simp only [accountId, find?_append]
    rw [or_of_isSome exists_account]

theorem set_password_account (username password : String) (salt : Salt) (name : String)
    (users : List (UserRecord Salt Hash)) :
    ((setPassword derive username password salt users).find? fun user =>
        user.username == name).map UserRecord.id
      = (users.find? fun user => user.username == name).map UserRecord.id := by
  induction users with
  | nil => rfl
  | cons user rest ih =>
    unfold setPassword
    split
    · rw [find?_cons, find?_cons]
      cases user.username == name <;> rfl
    · rw [find?_cons, find?_cons]
      cases named : user.username == name
      · exact ih
      · rfl

theorem alter_user_keeps_grants (catalog : SystemCatalog Salt Hash)
    (username password : String) (salt : Salt) :
    OnlyKeeps catalog (catalog.alterUser derive username password salt).2 := by
  unfold alterUser
  split_ifs
  · exact only_keeps_refl catalog
  · exact only_keeps_refl catalog
  · exact only_keeps_of_accounts (fun _ => id) fun grant _ =>
      set_password_account derive username password salt grant.username catalog.users

theorem drop_user_keeps_grants (catalog : SystemCatalog Salt Hash) (username : String) :
    OnlyKeeps catalog (catalog.dropUser username).2 := by
  unfold dropUser
  split_ifs
  · exact only_keeps_refl catalog
  · exact only_keeps_refl catalog
  · refine only_keeps_of_accounts (filter_subset_self _) fun grant listed => ?_
    have other : grant.username ≠ username := by simpa using (mem_filter.mp listed).2
    simp only [accountId, find?_filter]
    congr 2
    funext user
    by_cases named : user.username = grant.username
    · simp [named, other]
    · simp [named]

theorem revoke_keeps_grants (catalog : SystemCatalog Salt Hash) (input : PrivilegeGrant) :
    OnlyKeeps catalog (catalog.revoke input).2 := by
  intro grant listed
  obtain ⟨listed, _⟩ := mem_filter.mp listed
  obtain ⟨old, old_listed, rfl⟩ := mem_map.mp listed
  refine ⟨old, old_listed, ?_⟩
  by_cases same : old.sameResource input = true
  · rw [if_pos same]
    exact ⟨same_resource_refl old, filter_subset_self _, rfl⟩
  · rw [if_neg same]
    exact ⟨same_resource_refl old, fun _ => id, rfl⟩

theorem grant_known {input : PrivilegeGrant} (known : GrantsKnown catalog given)
    (exists_user : catalog.hasUser input.username = true) :
    GrantsKnown { catalog with grants := mergeGrant input catalog.grants }
      (⟨catalog.accountId input.username, input⟩ :: given) := by
  intro grant listed
  have input_account : (catalog.accountId input.username).isSome := by
    rw [account_id_isSome]
    exact exists_user
  -- each privilege was there before, or is one of the new grant
  have origin : (catalog.accountId grant.username).isSome ∧ ∀ privilege ∈ grant.privileges,
      (input.sameResource grant = true ∧ privilege ∈ input.privileges) ∨
        holder given grant privilege = catalog.accountId grant.username := by
    rcases mem_mergeGrant listed with old | rfl | ⟨old, old_listed, same, rfl⟩
    · exact ⟨(known grant old).1, fun privilege held => .inr ((known grant old).2 privilege held)⟩
    · exact ⟨input_account, fun privilege held =>
        .inl ⟨same_resource_refl _, held⟩⟩
    · refine ⟨(known old old_listed).1, fun privilege held => ?_⟩
      rcases mem_addPrivileges.mp held with before | added
      · exact .inr ((known old old_listed).2 privilege before)
      · obtain ⟨username, scope, database, table⟩ := sameResource_iff.mp same
        exact .inl ⟨sameResource_iff.mpr
          ⟨username.symm, scope.symm, database.symm, table.symm⟩, added⟩
  refine ⟨origin.1, fun privilege held => ?_⟩
  rw [holder_cons]
  split
  next fresh => exact congrArg catalog.accountId (sameResource_iff.mp fresh.1).1
  next old => exact (origin.2 privilege held).resolve_left old

theorem grant_current {sessions : Nat → BoundSession}
    {input : PrivilegeGrant} (current : SessionsCurrent catalog sessions)
    (fresh : ∀ connection, (sessions connection).session.authenticated = true →
      (sessions connection).session.username = input.username →
        (sessions connection).userId = catalog.accountId input.username) :
    SessionsCurrent { catalog with grants := mergeGrant input catalog.grants }
      sessions := by
  intro connection authenticated grant listed named
  rcases mem_mergeGrant listed with old | rfl | ⟨old, old_listed, same, rfl⟩
  · exact current connection authenticated grant old named
  · exact fresh connection authenticated named.symm
  · exact current connection authenticated old old_listed named

section Runs

variable {derive} [DecidableEq Hash] {handler : Handler}

theorem execute_keeps_grants
    (known : GrantsKnown catalog given) (session : Session) {command : Command Salt}
    (other : command.givenGrant? = none ∨
      (execute handler derive catalog session command).1 ≠ .success) :
    OnlyKeeps catalog (execute handler derive catalog session command).2.1 := by
  have unchanged := only_keeps_refl catalog
  cases command with
  | login username password database => exact unchanged
  | createUser username password salt =>
    simp only [execute]
    split_ifs
    · exact unchanged
    · exact unchanged
    · exact create_user_keeps_grants derive known username password salt
  | alterUser username password salt =>
    simp only [execute]
    split_ifs
    · exact unchanged
    · exact unchanged
    · exact alter_user_keeps_grants derive catalog username password salt
  | dropUser username =>
    simp only [execute]
    split_ifs
    · exact unchanged
    · exact unchanged
    · exact drop_user_keeps_grants catalog username
  | grant privileges resource username =>
    simp only [execute] at other ⊢
    split_ifs at other ⊢
    · exact unchanged
    · rcases @executePrivilege_cases _ _ handler catalog session true privileges resource
        username with ⟨_, same⟩ | ⟨list, _, parsed, ⟨_, _, granted⟩ | ⟨impossible, _⟩⟩
      · rw [same]
        exact unchanged
      · have failed := other.resolve_left (by simp [Command.givenGrant?, parsed])
        rw [granted] at failed ⊢
        unfold grant at failed ⊢
        split_ifs at failed ⊢
        · exact unchanged
        · exact absurd rfl failed
      · cases impossible
  | revoke privileges resource username =>
    simp only [execute]
    split_ifs
    · exact unchanged
    · rcases @executePrivilege_cases _ _ handler catalog session false privileges resource
        username with ⟨_, same⟩ | ⟨list, _, _, ⟨impossible, _⟩ | ⟨_, revoked⟩⟩
      · rw [same]
        exact unchanged
      · cases impossible
      · rw [revoked]
        exact revoke_keeps_grants catalog _

theorem execute_grant_success {session : Session}
    {privileges : List String} {resource : Resource} {username : String}
    (success : (execute handler derive catalog session
      (.grant privileges resource username)).1 = .success) :
    ∃ input, (Command.grant privileges resource username : Command Salt).givenGrant? = some input ∧
      input.username = username ∧ catalog.hasUser input.username = true ∧
      (execute handler derive catalog session (.grant privileges resource username)).2.1
        = { catalog with grants := mergeGrant input catalog.grants } := by
  simp only [execute] at success ⊢
  split_ifs at success ⊢
  rcases @executePrivilege_cases _ _ handler catalog session true privileges resource
    username with ⟨failed, _⟩ | ⟨list, _, parsed, ⟨_, _, granted⟩ | ⟨impossible, _⟩⟩
  · exact absurd success failed
  · refine ⟨privilegeGrant list resource username, ?_, rfl, ?_⟩
    · simp [Command.givenGrant?, parsed]
    · rw [granted] at success ⊢
      unfold grant at success ⊢
      split_ifs at success ⊢ with missing
      exact ⟨by simpa using missing, rfl⟩
  · cases impossible

theorem login_step_keeps (connection : Nat) (username password database : String)
    (current : SessionsCurrent state.catalog state.sessions) :
    SessionsCurrent state.catalog (update state.sessions connection
      ⟨(login handler derive state.catalog (state.sessions connection).session username password
          database).2,
        if (login handler derive state.catalog (state.sessions connection).session username
          password database).1 = .success then state.catalog.accountId username
        else (state.sessions connection).userId⟩) := by
  intro other authenticated grant listed named
  by_cases same : other = connection
  · subst same
    rw [update_self] at authenticated named ⊢
    rcases @login_cases _ _ handler derive _ state.catalog (state.sessions other).session username
      password database with ⟨failed, kept⟩ | ⟨success, -, logged_in⟩
    · rw [if_neg failed]
      simp only [kept] at authenticated named
      exact current other authenticated grant listed named
    · rw [if_pos success]
      rw [named, logged_in]
  · rw [update_of_ne same] at authenticated named ⊢
    exact current other authenticated grant listed named

theorem account_step_keeps {next : Accounts Salt Hash} {action : Nat × Command Salt}
    (holds : GrantsKnown state.catalog state.given ∧ SessionsCurrent state.catalog state.sessions)
    (met : NoStaleGrantee state action)
    (taken : accountStep handler derive state action = some next) :
    GrantsKnown next.catalog next.given ∧ SessionsCurrent next.catalog next.sessions := by
  obtain ⟨known, current⟩ := holds
  obtain ⟨connection, command⟩ := action
  obtain rfl := some.inj taken
  have unchanged : ∀ other : Command Salt, (∀ username password database,
      other ≠ .login username password database) → update state.sessions connection
        ⟨(execute handler derive state.catalog (state.sessions connection).session other).2.2,
          (state.sessions connection).userId⟩ = state.sessions := by
    intro other no_login
    rw [(execute_session _ _ other).resolve_right fun ⟨_, _, _, login, _⟩ => no_login _ _ _ login]
    exact update_eq_self connection state.sessions
  have kept : ∀ {after}, OnlyKeeps state.catalog after →
      GrantsKnown after state.given ∧ SessionsCurrent after state.sessions :=
    fun keeps => ⟨known_of_keeps known keeps, current_of_keeps current keeps⟩
  cases command with
  | login username password database =>
    exact ⟨known, login_step_keeps connection username password database current⟩
  | createUser username password salt | alterUser username password salt | dropUser username
  | revoke privileges resource username =>
    rw [unchanged _ (by intros; nofun)]
    exact kept (execute_keeps_grants known _ (.inl rfl))
  | grant privileges resource username =>
    rw [unchanged _ (by intros; nofun)]
    by_cases success : (execute handler derive state.catalog (state.sessions connection).session
        (.grant privileges resource username)).1 = .success
    · obtain ⟨input, given, named, exists_user, merged⟩ := execute_grant_success success
      simp only [given, success, if_true, merged]
      refine ⟨grant_known known exists_user, grant_current current ?_⟩
      intro other authenticated same_name
      rw [named]
      exact met other authenticated (same_name.trans named)
    · simp only [success, if_false]
      cases (Command.grant privileges resource username : Command Salt).givenGrant? <;>
        exact kept (execute_keeps_grants known _ (.inr success))

/-- If nothing is granted to a name that a session of another account still bears, every session
is authorized by grants to its own account only. -/
theorem no_stale_run_authorized {salt : Salt} {hash : Hash} {last : Accounts Salt Hash}
    (ran : Reaches (accountStep handler derive) NoStaleGrantee (Accounts.initial salt hash) last) :
    AuthorizedByOwnGrants last := by
  have start : GrantsKnown (Accounts.initial salt hash).catalog (Accounts.initial salt hash).given ∧
      SessionsCurrent (Accounts.initial salt hash).catalog (Accounts.initial salt hash).sessions := by
    constructor
    · intro grant listed
      exact absurd listed not_mem_nil
    · intro connection _ grant listed
      exact absurd listed not_mem_nil
  obtain ⟨known, current⟩ := reaches_invariant
    (fun state => GrantsKnown state.catalog state.given ∧
      SessionsCurrent state.catalog state.sessions)
    (fun _ _ _ holds met taken => account_step_keeps holds met taken) start ran
  exact authorized_of_known known current

end Runs

def everythingOpen : Handler := ⟨fun _ => true, fun _ _ => true⟩

def plainKey (_ : Unit) (password : String) : String := password

def bobLogsIn : List (Nat × Command Unit) :=
  [(0, .login "root" "rootpassword" ""), (0, .createUser "bob" "bobpassword" ()),
    (0, .grant ["SELECT"] sysDatabase "bob"), (1, .login "bob" "bobpassword" "")]

def bobState (count : Nat) : Accounts Unit String :=
  (bobLogsIn.take count).foldl
    (fun state action => (accountStep everythingOpen plainKey state action).getD state)
    (Accounts.initial () "rootpassword")

theorem bob_reads_by_own_grant :
    ((bobState 4).sessions 1).session.username = "bob" ∧
      (bobState 4).catalog.allowed "bob" .select "sys" "" = true ∧
      AuthorizedByOwnGrants (bobState 4) := by
  have fresh : NoStaleGrantee (bobState 2) (0, .grant ["SELECT"] sysDatabase "bob") := by
    intro connection authenticated named
    by_cases root : connection = 0
    · subst root
      exact absurd named (by decide +kernel)
    · have nobody : (bobState 2).sessions connection = ⟨⟨"", false, "sys"⟩, none⟩ :=
        (update_of_ne root _ _).trans (update_of_ne root _ _)
      rw [nobody] at authenticated
      cases authenticated
  have rootIn : NoStaleGrantee (bobState 0) (0, .login "root" "rootpassword" "") := trivial
  have created : NoStaleGrantee (bobState 1) (0, .createUser "bob" "bobpassword" ()) := trivial
  have bobIn : NoStaleGrantee (bobState 3) (1, .login "bob" "bobpassword" "") := trivial
  have logged_in : Reaches (accountStep everythingOpen plainKey) NoStaleGrantee
      (Accounts.initial () "rootpassword") (bobState 4) :=
    .tail (.tail (.tail (.tail .refl rootIn rfl) created rfl) fresh rfl) bobIn rfl
  exact ⟨by decide +kernel, by decide +kernel, no_stale_run_authorized logged_in⟩

def bobIsReplaced : List (Nat × Command Unit) :=
  bobLogsIn ++ [(0, .dropUser "bob"), (0, .createUser "bob" "newpassword" ()),
    (0, .grant ["SELECT"] sysDatabase "bob")]

/-- The session of the first bob is authorized by a grant to the second. -/
theorem stale_session_authorized_by_new_account :
    ¬ ∀ (handler : Handler) (derive : Unit → String → String) (hash : String)
      (last : Accounts Unit String),
      Reaches (accountStep handler derive) (fun _ _ => True) (Accounts.initial () hash) last →
        AuthorizedByOwnGrants last := by
  intro bound
  have runs : (run (accountStep everythingOpen plainKey) (fun _ _ => True)
      (Accounts.initial () "rootpassword") bobIsReplaced).any (fun last =>
        (last.sessions 1).session.authenticated = true ∧
        (last.sessions 1).session.username = "bob" ∧ (last.sessions 1).userId = some 2 ∧
        last.catalog.grants = [⟨"bob", .database, "sys", "", [.select]⟩] ∧
        holder last.given ⟨"bob", .database, "sys", "", [.select]⟩ .select = some 3) = true := by
    decide +kernel
  obtain ⟨last, ran, facts⟩ := (any_eq_true _ _).mp runs
  obtain ⟨authenticated, named, logged_in, grants, given⟩ := of_decide_eq_true facts
  have authorized := bound everythingOpen plainKey "rootpassword" last (run_reaches ran) 1
    authenticated (by rw [named]; decide) ⟨"bob", .database, "sys", "", [.select]⟩
    (by rw [grants]; simp) named.symm .select "sys" "" (by decide +kernel) .select (by simp)
  rw [given, logged_in] at authorized
  exact absurd authorized.1 (by decide)

end CsuDbms.SystemCatalogModel
