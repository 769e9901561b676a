import CsuDbms.SystemCatalogModel
import CsuDbms.TransitionSystem

/-!
# What a group of users can become allowed to do

A group of users acts through connections of its own, root only grants. The group
knows some passwords, takes in every account it creates, and may combine the
commands of its members in any order.
-/

namespace CsuDbms.SystemCatalogModel

open TransitionSystem List SystemCatalog PrivilegeGrant

/-- The catalog with the connections of the group, its members, the passwords it has
used so far, and the grants root has made to an account that was a member then. -/
structure GroupState (Salt Hash : Type) where
  catalog : SystemCatalog Salt Hash
  sessions : Nat → Session
  members : List String
  known : List String
  rootGrants : List PrivilegeGrant

inductive GroupAction (Salt : Type) where
  | rootGrant (privileges : List String) (resource : Resource) (username : String)
  | member (connection : Nat) (command : Command Salt)

def Command.passwords {Salt : Type} : Command Salt → List String
  | .login _ password _ => [password]
  | .createUser _ password _ => [password]
  | .alterUser _ password _ => [password]
  | .dropUser _ => []
  | .grant _ _ _ => []
  | .revoke _ _ _ => []

def Command.created {Salt : Type} : Command Salt → List String
  | .createUser username _ _ => [username]
  | _ => []

def rootSession : Session := ⟨rootName, true, "sys"⟩

section Group

variable {Salt Hash : Type} [DecidableEq Hash] (handler : Handler)
  (derive : Salt → String → Hash)

def groupStep (state : GroupState Salt Hash) :
    GroupAction Salt → Option (GroupState Salt Hash)
  | .rootGrant privileges resource username =>
    let result :=
      executePrivilege handler state.catalog rootSession true privileges resource username
    some
      { state with
          catalog := result.2
          rootGrants :=
            if result.1 = .success ∧ username ∈ state.members then
              state.rootGrants ++
                [privilegeGrant (privileges.filterMap validPrivilege) resource username]
            else state.rootGrants }
  | .member connection command =>
    let result := execute handler derive state.catalog (state.sessions connection) command
    some
      { state with
          catalog := result.2.1
          sessions := Function.update state.sessions connection result.2.2
          members := if result.1 = .success then state.members ++ command.created
            else state.members
          known := state.known ++ command.passwords }

/-- The group has guessed no password of an account that is not its own. -/
def NotGuessed (state : GroupState Salt Hash) (password : String) : Prop :=
  ∀ user ∈ state.catalog.users, user.username ∉ state.members →
    derive user.salt password ≠ user.hash

def Honest (state : GroupState Salt Hash) : GroupAction Salt → Prop
  | .rootGrant _ _ _ => True
  | .member _ command => ∀ password ∈ command.passwords, NotGuessed derive state password

/-- `ALTER USER` of a member names a member. -/
def AltersOwn (state : GroupState Salt Hash) : GroupAction Salt → Prop
  | .member _ (.alterUser username _ _) => username ∈ state.members
  | _ => True

/-- The accounts are those of the users, root is one outside the group, every grant a member has
is root's, and the group knows the passwords of its own accounts only. -/
structure Start (state : GroupState Salt Hash) : Prop where
  rootUser : state.catalog.hasUser rootName = true
  rootOutside : rootName ∉ state.members
  owners : ∀ grant ∈ state.catalog.grants, state.catalog.hasUser grant.username = true
  grants : state.rootGrants = state.catalog.grants.filter fun grant =>
    grant.username ∈ state.members
  named : ∀ grant ∈ state.catalog.grants, ∃ resource privileges, privileges ≠ [] ∧
    grant = privilegeGrant privileges resource grant.username
  passwords : ∀ password ∈ state.known, NotGuessed derive state password
  sessions : ∀ connection, (state.sessions connection).authenticated = false

/-- A name the group can use: one of its connections has it, or it can log in. -/
def CanUse (state : GroupState Salt Hash) (username : String) : Prop :=
  (∃ connection, (state.sessions connection).authenticated = true ∧
      (state.sessions connection).username = username) ∨
    ∃ password ∈ state.known, state.catalog.authenticate derive username password = true

/-- Root granted the privilege, or `ALL`, to a member on a resource that covers this
one; for `CONNECT`, any privilege that applies inside the database. -/
def RootGranted (state : GroupState Salt Hash) (requested : Privilege)
    (database table : String) : Prop :=
  ∃ grant ∈ state.rootGrants,
    (grant.resourceMatches database table = true ∧
        (.all ∈ grant.privileges ∨ requested ∈ grant.privileges)) ∨
      (requested = .connect ∧ (grant.scope = .global ∨ grant.database = database))

def Confined (state : GroupState Salt Hash) : Prop :=
  ∀ username, CanUse derive state username → ∀ requested database table,
    state.catalog.allowed username requested database table = true →
      RootGranted state requested database table

end Group

variable {rootGrants : List PrivilegeGrant} {members : List String} {username : String}
  {privileges : List Privilege} {resource : Resource}

section Grants

def Covered (rootGrants : List PrivilegeGrant) (grant : PrivilegeGrant) (privilege : Privilege) :
    Prop :=
  ∃ source ∈ rootGrants, (.all ∈ source.privileges ∨ privilege ∈ source.privileges) ∧
    ∀ database table, grant.resourceMatches database table = true →
      source.resourceMatches database table = true

variable {grant : PrivilegeGrant} {privilege : Privilege}

theorem Covered.mono {later : List PrivilegeGrant} (covered : Covered rootGrants grant privilege)
    (continued : rootGrants ⊆ later) : Covered later grant privilege := by
  obtain ⟨source, member, held, wider⟩ := covered
  exact ⟨source, continued member, held, wider⟩

variable {other : PrivilegeGrant}

theorem sameResource_iff :
    grant.sameResource other = true ↔ grant.username = other.username ∧
      grant.scope = other.scope ∧ grant.database = other.database ∧ grant.table = other.table := by
  simp [sameResource, and_assoc]

theorem Covered.same (covered : Covered rootGrants other privilege)
    (same : grant.sameResource other = true) : Covered rootGrants grant privilege := by
  obtain ⟨_, scope, database, table⟩ := sameResource_iff.mp same
  obtain ⟨source, member, held, wider⟩ := covered
  refine ⟨source, member, held, fun db tbl inside => wider db tbl ?_⟩
  simpa [resourceMatches, scope, database, table] using inside

structure Named (grant : PrivilegeGrant) : Prop where
  database : grant.scope ≠ .global → grant.database ≠ ""
  table : grant.scope = .table → grant.table ≠ ""
  privileges : grant.privileges ≠ []

theorem identifier_ne_empty {text : String} (valid : isIdentifier text = true) : text ≠ "" := by
  rintro rfl
  simp [isIdentifier] at valid

theorem privilegeGrant_named (some : privileges ≠ []) (resource : Resource) (username : String) :
    Named (privilegeGrant privileges resource username) := by
  cases resource with
  | global => exact ⟨fun kind => absurd rfl kind, nofun, some⟩
  | database name valid =>
    exact ⟨fun _ => identifier_ne_empty valid, nofun, some⟩
  | table name table valid validTable =>
    exact ⟨fun _ => identifier_ne_empty valid, fun _ => identifier_ne_empty validTable, some⟩

theorem matches_of_named (named : Named grant)
    (whole : grant.resourceMatches resource.databaseName resource.tableName = true)
    {database table : String}
    (inside : (privilegeGrant privileges resource username).resourceMatches database table = true) :
    grant.resourceMatches database table = true := by
  cases kind : grant.scope with
  | global => simp [resourceMatches, kind]
  | database =>
    have nonempty := named.database (by simp [kind])
    cases resource <;>
      simp_all [resourceMatches, privilegeGrant, Resource.scope,
        Resource.databaseName, Resource.tableName]
  | table =>
    have nonempty := named.database (by simp [kind])
    have nonemptyTable := named.table kind
    cases resource <;>
      simp_all [resourceMatches, privilegeGrant, Resource.scope,
        Resource.databaseName, Resource.tableName]

theorem mem_addPrivileges {added held : List Privilege} :
    privilege ∈ added.foldl addPrivilege held ↔
      privilege ∈ held ∨ privilege ∈ added := by
  induction added generalizing held with
  | nil => simp
  | cons first rest ih =>
    rw [foldl_cons, ih, addPrivilege]
    split
    · rename_i present
      have known : privilege = first → privilege ∈ held := by
        rintro rfl
        exact contains_iff_mem.mp present
      rw [mem_cons, ← or_assoc, or_iff_left_of_imp known]
    · simp [or_assoc]

theorem mem_mergeGrant {input : PrivilegeGrant} {grants : List PrivilegeGrant}
    (member : grant ∈ mergeGrant input grants) :
    grant ∈ grants ∨ grant = input ∨ ∃ old ∈ grants, old.sameResource input = true ∧
      grant = { old with
        privileges := input.privileges.foldl addPrivilege old.privileges } := by
  fun_induction mergeGrant input grants with
  | case1 => exact .inr (.inl (mem_singleton.mp member))
  | case2 first rest same =>
    rcases mem_cons.mp member with rfl | member
    · exact .inr (.inr ⟨first, mem_cons_self, same, rfl⟩)
    · exact .inl (mem_cons_of_mem _ member)
  | case3 first rest _ ih =>
    rcases mem_cons.mp member with rfl | member
    · exact .inl mem_cons_self
    · rcases ih member with old | new | ⟨old, held, same, rfl⟩
      · exact .inl (mem_cons_of_mem _ old)
      · exact .inr (.inl new)
      · exact .inr (.inr ⟨old, mem_cons_of_mem _ held, same, rfl⟩)

theorem validPrivilege_ne_connect (text : String) : validPrivilege text ≠ some .connect := by
  unfold validPrivilege
  split <;> simp

section

variable {texts : List String} (valid : texts.mapM validPrivilege = some privileges)
include valid

theorem mapM_validPrivilege :
    texts.filterMap validPrivilege = privileges := by
  induction texts generalizing privileges with
  | nil => simpa using valid
  | cons text rest ih =>
    rw [mapM_cons] at valid
    obtain ⟨first, found, valid⟩ := Option.bind_eq_some_iff.mp valid
    obtain ⟨others, restValid, valid⟩ := Option.bind_eq_some_iff.mp valid
    obtain rfl := Option.some.inj valid
    rw [filterMap_cons, found, ih restValid]

theorem connect_not_mem : Privilege.connect ∉ privileges := by
  rw [← mapM_validPrivilege valid, mem_filterMap]
  rintro ⟨text, -, found⟩
  exact validPrivilege_ne_connect text found

end

end Grants

section Invariant

variable {Salt Hash : Type} {handler : Handler} {derive : Salt → String → Hash}

structure Bounded (derive : Salt → String → Hash) (catalog : SystemCatalog Salt Hash)
    (members known : List String) (rootGrants : List PrivilegeGrant) : Prop where
  rootUser : catalog.hasUser rootName = true
  rootOutside : rootName ∉ members
  owners : ∀ grant ∈ catalog.grants, catalog.hasUser grant.username = true
  named : ∀ grant ∈ catalog.grants, Named grant
  covered : ∀ grant ∈ catalog.grants, grant.username ∈ members →
    ∀ privilege ∈ grant.privileges, Covered rootGrants grant privilege
  secret : ∀ user ∈ catalog.users, user.username ∉ members →
    ∀ password ∈ known, derive user.salt password ≠ user.hash

theorem matches_self (grant : PrivilegeGrant) :
    grant.resourceMatches grant.database grant.table = true := by
  unfold resourceMatches
  split <;> simp

variable {database : String}

theorem database_of_matches {grant : PrivilegeGrant} {table : String}
    (inside : grant.resourceMatches database table = true) :
    grant.scope = .global ∨ grant.database = database := by
  unfold resourceMatches at inside
  split at inside <;> simp_all

variable {known : List String} {password : String}

namespace Bounded

variable {catalog : SystemCatalog Salt Hash}

theorem mem_setPassword {users : List (UserRecord Salt Hash)} {salt : Salt}
    {user : UserRecord Salt Hash} (member : user ∈ setPassword derive username password salt users) :
    user ∈ users ∨ user.username = username := by
  fun_induction setPassword derive username password salt users with
  | case1 => exact absurd member not_mem_nil
  | case2 first rest same =>
    rcases mem_cons.mp member with rfl | member
    · exact .inr (by simpa using same)
    · exact .inl (mem_cons_of_mem _ member)
  | case3 first rest _ ih =>
    rcases mem_cons.mp member with rfl | member
    · exact .inl mem_cons_self
    · exact (ih member).imp_left (mem_cons_of_mem _)

theorem any_setPassword (users : List (UserRecord Salt Hash)) (username password : String)
    (salt : Salt) (name : String) :
    ((setPassword derive username password salt users).any fun user =>
      user.username == name) = users.any fun user => user.username == name := by
  fun_induction setPassword derive username password salt users with
  | case1 | case2 => rfl
  | case3 first rest _ ih => rw [any_cons, any_cons, ih]

section

variable (bounded : Bounded derive catalog members known rootGrants)
include bounded

theorem ne_root (member : username ∈ members) : username ≠ rootName := by
  rintro rfl
  exact bounded.rootOutside member

theorem covered_of_held {grant : PrivilegeGrant} (held : grant ∈ catalog.grants)
    (owner : grant.username ∈ members) {requested : Privilege}
    (has : .all ∈ grant.privileges ∨ requested ∈ grant.privileges) :
    Covered rootGrants grant requested := by
  rcases has with all | listed
  · obtain ⟨source, given, has, wider⟩ := bounded.covered grant held owner _ all
    exact ⟨source, given, .inl (has.elim id id), wider⟩
  · exact bounded.covered grant held owner _ listed

theorem allowed_covered (member : username ∈ members) {requested : Privilege} {table : String}
    (allowed : catalog.allowed username requested database table = true)
    (other : requested ≠ .connect) :
    ∃ grant ∈ catalog.grants, Named grant ∧ grant.resourceMatches database table = true ∧
      Covered rootGrants grant requested := by
  obtain ⟨grant, held, owner, allows⟩ := (allowed_iff (bounded.ne_root member)).mp allowed
  rcases allows_iff.mp allows with ⟨connect, -⟩ | ⟨inside, has⟩
  · exact absurd connect other
  · exact ⟨grant, held, bounded.named grant held, inside,
      bounded.covered_of_held held (owner ▸ member) has⟩

theorem mono {later : List PrivilegeGrant} (continued : rootGrants ⊆ later) :
    Bounded derive catalog members known later :=
  { bounded with
    covered := fun grant held owner privilege listed =>
      (bounded.covered grant held owner privilege listed).mono continued }

theorem learn {passwords : List String}
    (notGuessed : ∀ password ∈ passwords, ∀ user ∈ catalog.users, user.username ∉ members →
      derive user.salt password ≠ user.hash) :
    Bounded derive catalog members (known ++ passwords) rootGrants :=
  { bounded with
    secret := by
      intro user member outside password listed
      rcases mem_append.mp listed with old | new
      · exact bounded.secret user member outside password old
      · exact notGuessed password new user member outside }

theorem shrink {smaller : SystemCatalog Salt Hash} (root : smaller.hasUser rootName = true)
    (users : smaller.users ⊆ catalog.users)
    (owners : ∀ grant ∈ smaller.grants, smaller.hasUser grant.username = true)
    (grants : ∀ grant ∈ smaller.grants, grant.privileges ≠ [] ∧ ∃ old ∈ catalog.grants,
      ∃ privileges ⊆ old.privileges, grant = { old with privileges }) :
    Bounded derive smaller members known rootGrants where
  rootUser := root
  rootOutside := bounded.rootOutside
  owners := owners
  named := by
    intro grant member
    obtain ⟨some, old, held, _, _, rfl⟩ := grants grant member
    exact ⟨(bounded.named old held).database, (bounded.named old held).table, some⟩
  covered := by
    intro grant member owner privilege listed
    obtain ⟨-, old, held, _, fewer, rfl⟩ := grants grant member
    exact bounded.covered old held owner privilege (fewer listed)
  secret := fun user member => bounded.secret user (users member)

theorem create (username password : String) (salt : Salt) :
    Bounded derive (catalog.createUser derive username password salt).2
      (if (catalog.createUser derive username password salt).1 = .success
        then members ++ [username] else members) known rootGrants := by
  unfold createUser
  split
  · simpa using bounded
  split
  · simpa using bounded
  split
  · exact { bounded with }
  rename_i fresh _
  have other : ∀ grant ∈ catalog.grants, grant.username ≠ username := by
    rintro grant held rfl
    exact fresh (bounded.owners grant held)
  have kept : ∀ name, catalog.hasUser name = true →
      (catalog.users ++ [UserRecord.mk catalog.nextUserId username salt
        (derive salt password)]).any (fun user => user.username == name) = true := by
    intro name present
    rw [any_append, Bool.or_eq_true]
    exact .inl present
  refine ⟨kept _ bounded.rootUser, ?_, fun grant held => kept _ (bounded.owners grant held),
    bounded.named, ?_, ?_⟩
  · rw [if_pos rfl, mem_append, mem_singleton]
    rintro (old | rfl)
    · exact bounded.rootOutside old
    · exact fresh bounded.rootUser
  · intro grant held owner privilege listed
    rw [if_pos rfl, mem_append, mem_singleton] at owner
    exact bounded.covered grant held (owner.resolve_right (other grant held)) privilege listed
  · intro user member outside
    rw [if_pos rfl, mem_append, mem_singleton, not_or] at outside
    rcases mem_append.mp member with old | new
    · exact bounded.secret user old outside.1
    · rw [mem_singleton.mp new] at outside
      exact absurd rfl outside.2

theorem alter (own : username ∈ members) (password : String) (salt : Salt) :
    Bounded derive (catalog.alterUser derive username password salt).2 members known
      rootGrants := by
  unfold alterUser
  split
  · exact bounded
  split
  · exact bounded
  have kept : ∀ name, catalog.hasUser name = true →
      (setPassword derive username password salt catalog.users).any
        (fun user => user.username == name) = true := by
    intro name present
    rw [any_setPassword]
    exact present
  refine ⟨kept _ bounded.rootUser, bounded.rootOutside,
    fun grant held => kept _ (bounded.owners grant held), bounded.named, bounded.covered, ?_⟩
  intro user member outside
  rcases mem_setPassword member with old | rfl
  · exact bounded.secret user old outside
  · exact absurd own outside

theorem drop (username : String) :
    Bounded derive (catalog.dropUser username).2 members known rootGrants := by
  unfold dropUser
  split
  · exact bounded
  split
  · exact bounded
  rename_i notRoot _
  have kept : ∀ name, name ≠ username → catalog.hasUser name = true →
      (catalog.users.filter fun user => !(user.username == username)).any
        (fun user => user.username == name) = true := by
    intro name other present
    obtain ⟨user, member, same⟩ := any_eq_true.mp present
    refine any_eq_true.mpr ⟨user, mem_filter.mpr ⟨member, ?_⟩, same⟩
    simp_all
  have rootKept : rootName ≠ username := fun same => notRoot (by simp [same])
  refine bounded.shrink (kept _ rootKept bounded.rootUser) (filter_subset_self _) ?_ ?_
  · intro grant member
    obtain ⟨held, other⟩ := mem_filter.mp member
    exact kept _ (by simpa using other) (bounded.owners grant held)
  · intro grant member
    obtain ⟨held, -⟩ := mem_filter.mp member
    exact ⟨(bounded.named grant held).privileges, grant, held, _, fun _ => id, rfl⟩

theorem revoke (input : PrivilegeGrant) :
    Bounded derive (catalog.revoke input).2 members known rootGrants := by
  have old : ∀ grant ∈ (catalog.revoke input).2.grants, grant.privileges ≠ [] ∧
      ∃ old ∈ catalog.grants, ∃ privileges ⊆ old.privileges, grant = { old with privileges } := by
    intro grant member
    obtain ⟨mapped, some⟩ := mem_filter.mp member
    obtain ⟨old, held, rfl⟩ := mem_map.mp mapped
    refine ⟨by simpa using some, old, held, ?_⟩
    split
    · exact ⟨_, filter_subset_self _, rfl⟩
    · exact ⟨_, fun _ => id, rfl⟩
  refine bounded.shrink bounded.rootUser (fun _ => id) ?_ old
  intro grant member
  obtain ⟨-, previous, held, _, -, rfl⟩ := old grant member
  exact bounded.owners previous held

end

theorem grant (bounded : Bounded derive catalog members known rootGrants)
    {input : PrivilegeGrant} (named : Named input)
    (covers : input.username ∈ members →
      ∀ privilege ∈ input.privileges, Covered rootGrants input privilege) :
    Bounded derive (catalog.grant input).2 members known rootGrants := by
  unfold SystemCatalog.grant
  split
  · exact bounded
  rename_i receiver
  refine ⟨bounded.rootUser, bounded.rootOutside, ?_, ?_, ?_, bounded.secret⟩
  · intro grant member
    rcases mem_mergeGrant member with held | rfl | ⟨old, held, same, rfl⟩
    · exact bounded.owners grant held
    · rw [Bool.not_eq_true', Bool.not_eq_false] at receiver
      exact receiver
    · exact bounded.owners old held
  · intro grant member
    rcases mem_mergeGrant member with held | rfl | ⟨old, held, same, rfl⟩
    · exact bounded.named grant held
    · exact named
    · obtain ⟨privilege, listed⟩ := exists_mem_of_ne_nil _ named.privileges
      exact ⟨(bounded.named old held).database, (bounded.named old held).table,
        ne_nil_of_mem (mem_addPrivileges.mpr (.inr listed))⟩
  · intro grant member owner privilege listed
    rcases mem_mergeGrant member with held | rfl | ⟨old, held, same, rfl⟩
    · exact bounded.covered grant held owner privilege listed
    · exact covers owner privilege listed
    · rcases mem_addPrivileges.mp listed with before | new
      · exact bounded.covered old held owner privilege before
      · exact (covers ((sameResource_iff.mp same).1 ▸ owner) privilege new).same same

end Bounded

theorem executePrivilege_cases (catalog : SystemCatalog Salt Hash) (session : Session)
    (isGrant : Bool) (privileges : List String) (resource : Resource) (username : String) :
    ((executePrivilege handler catalog session isGrant privileges resource username).1 ≠ .success ∧
      (executePrivilege handler catalog session isGrant privileges resource username).2 =
        catalog) ∨
    ∃ list, list ≠ [] ∧ privileges.mapM validPrivilege = some list ∧
      ((isGrant = true ∧
          mayDelegate catalog session (privilegeGrant list resource username) = true ∧
          executePrivilege handler catalog session isGrant privileges resource username =
            catalog.grant (privilegeGrant list resource username)) ∨
        (isGrant = false ∧
          executePrivilege handler catalog session isGrant privileges resource username =
            catalog.revoke (privilegeGrant list resource username))) := by
  unfold executePrivilege
  split
  · exact .inl ⟨by simp, rfl⟩
  split
  · exact .inl ⟨by simp, rfl⟩
  · exact .inl ⟨by simp, rfl⟩
  rename_i first rest valid
  dsimp only
  split
  · split
    · rename_i granting
      split
      · rename_i delegates
        exact .inr ⟨first :: rest, by simp, valid, .inl ⟨granting, delegates, rfl⟩⟩
      · exact .inl ⟨by simp, rfl⟩
    · rename_i revoking
      exact .inr ⟨first :: rest, by simp, valid, .inr ⟨by simpa using revoking, rfl⟩⟩
  · rename_i rc failed
    exact .inl ⟨fun success => failed success, rfl⟩

variable {catalog : SystemCatalog Salt Hash}

theorem Bounded.delegated (bounded : Bounded derive catalog members known rootGrants)
    {session : Session} (member : session.username ∈ members) {texts : List String}
    (valid : texts.mapM validPrivilege = some privileges)
    (delegates : mayDelegate catalog session (privilegeGrant privileges resource username) = true)
    {privilege : Privilege} (listed : privilege ∈ privileges) :
    Covered rootGrants (privilegeGrant privileges resource username) privilege := by
  have notRoot := bounded.ne_root member
  rw [mayDelegate, Bool.or_eq_true, beq_iff_eq, or_iff_right notRoot, all_eq_true]
    at delegates
  have held := delegates privilege listed
  rw [Bool.and_eq_true] at held
  have other : privilege ≠ .connect := by
    rintro rfl
    exact connect_not_mem valid listed
  obtain ⟨grant, -, named, inside, covered⟩ := bounded.allowed_covered member held.2 other
  obtain ⟨source, given, has, wider⟩ := covered
  exact ⟨source, given, has, fun database table within =>
    wider database table (matches_of_named named inside within)⟩

structure Held (derive : Salt → String → Hash) (state : GroupState Salt Hash) : Prop where
  bounded : Bounded derive state.catalog state.members state.known state.rootGrants
  sessions : ∀ connection, (state.sessions connection).authenticated = true →
    (state.sessions connection).username ∈ state.members

variable {state : GroupState Salt Hash}

theorem Start.held (start : Start derive state) :
    Held derive state where
  bounded :=
    { rootUser := start.rootUser
      rootOutside := start.rootOutside
      owners := start.owners
      named := by
        intro grant member
        obtain ⟨resource, privileges, some, same⟩ := start.named grant member
        rw [same]
        exact privilegeGrant_named some resource _
      covered := by
        intro grant member owner privilege listed
        refine ⟨grant, ?_, .inr listed, fun _ _ => id⟩
        rw [start.grants, mem_filter]
        exact ⟨member, decide_eq_true owner⟩
      secret := fun user member outside password listed =>
        start.passwords password listed user member outside }
  sessions := by
    intro connection authenticated
    rw [start.sessions connection] at authenticated
    cases authenticated

variable [DecidableEq Hash]

theorem authenticate_member
    (notGuessed : ∀ user ∈ catalog.users, user.username ∉ members →
      derive user.salt password ≠ user.hash)
    (success : catalog.authenticate derive username password = true) : username ∈ members := by
  unfold authenticate at success
  split at success
  · cases success
  · rename_i user found
    have name : user.username = username := by simpa using find?_some found
    by_contra outside
    exact notGuessed user (mem_of_find?_eq_some found) (name ▸ outside)
      (by simpa using success)

theorem Held.confined (held : Held derive state) :
    Confined derive state := by
  intro username use requested database table allowed
  have member : username ∈ state.members := by
    rcases use with ⟨connection, authenticated, rfl⟩ | ⟨password, known, success⟩
    · exact held.sessions connection authenticated
    · exact authenticate_member (fun user listed outside =>
        held.bounded.secret user listed outside password known) success
  obtain ⟨grant, listed, owner, allows⟩ :=
    (allowed_iff (held.bounded.ne_root member)).mp allowed
  have inGroup : grant.username ∈ state.members := owner ▸ member
  rcases allows_iff.mp allows with ⟨connect, same, -⟩ | ⟨inside, has⟩
  · -- `CONNECT` comes with any privilege the grant lists
    obtain ⟨privilege, some⟩ :=
      exists_mem_of_ne_nil _ (held.bounded.named grant listed).privileges
    obtain ⟨source, given, -, wider⟩ :=
      held.bounded.covered grant listed inGroup privilege some
    have reached := database_of_matches (wider _ _ (matches_self grant))
    exact ⟨source, given, .inr ⟨connect, reached.imp_right (·.trans same)⟩⟩
  · obtain ⟨source, given, has, wider⟩ := held.bounded.covered_of_held listed inGroup has
    exact ⟨source, given, .inl ⟨wider _ _ inside, has⟩⟩

variable {next : GroupState Salt Hash}

theorem Held.rootGrant (held : Held derive state) {privileges : List String}
    (taken : groupStep handler derive state (.rootGrant privileges resource username) = some next) :
    Held derive next := by
  obtain rfl := Option.some.inj taken
  refine ⟨?_, held.sessions⟩
  dsimp only
  rcases executePrivilege_cases state.catalog rootSession true privileges resource username with
    ⟨failed, same⟩ | ⟨list, some, valid, ⟨-, -, same⟩ | ⟨revoking, -⟩⟩
  · rw [if_neg fun recorded => failed recorded.1, same]
    exact held.bounded
  · rw [same, mapM_validPrivilege valid]
    by_cases present : state.catalog.hasUser username = true
    · have success : (state.catalog.grant (privilegeGrant list resource username)).1 =
          .success := by simp [grant, privilegeGrant, present]
      have recorded : state.rootGrants ⊆ (if (state.catalog.grant
          (privilegeGrant list resource username)).1 = .success ∧ username ∈ state.members
          then state.rootGrants ++ [privilegeGrant list resource username]
          else state.rootGrants) := by
        split
        · exact subset_append_left _ _
        · exact fun _ => id
      refine (held.bounded.mono recorded).grant
        (privilegeGrant_named some resource username) fun owner privilege listed => ?_
      rw [if_pos ⟨success, owner⟩]
      exact ⟨_, mem_append_right _ mem_cons_self, .inr listed, fun _ _ => id⟩
    · have absent : state.catalog.grant (privilegeGrant list resource username) =
          (.userNotExist, state.catalog) := by
        simp [grant, privilegeGrant, present]
      rw [absent, if_neg (by simp)]
      exact held.bounded
  · cases revoking

theorem login_cases (catalog : SystemCatalog Salt Hash) (session : Session)
    (username password database : String) :
    ((login handler derive catalog session username password database).1 ≠ .success ∧
        (login handler derive catalog session username password database).2 = session) ∨
      (login handler derive catalog session username password database).1 = .success ∧
        catalog.authenticate derive username password = true ∧
        (login handler derive catalog session username password database).2.username =
          username := by
  simp only [login]
  generalize (if database = "" then "sys" else database) = target
  split
  · exact .inl ⟨by simp, rfl⟩
  rename_i success
  split
  · exact .inl ⟨by simp, rfl⟩
  split
  · exact .inl ⟨by simp, rfl⟩
  exact .inr ⟨rfl, by simpa using success, rfl⟩

theorem Held.execute_bounded (held : Held derive state) {connection : Nat} {command : Command Salt}
    (own : AltersOwn state (.member connection command))
    (known : Bounded derive state.catalog state.members (state.known ++ command.passwords)
      state.rootGrants) :
    Bounded derive (execute handler derive state.catalog (state.sessions connection) command).2.1
      (if (execute handler derive state.catalog (state.sessions connection) command).1 = .success
        then state.members ++ command.created else state.members)
      (state.known ++ command.passwords) state.rootGrants := by
  have same : Bounded derive state.catalog
      (if RC.authenticationFailed = .success then state.members ++ command.created
        else state.members) (state.known ++ command.passwords) state.rootGrants := by
    rw [if_neg (by simp)]
    exact known
  cases command with
  | login => simpa [execute, Command.created] using known
  | createUser username password salt =>
    simp only [execute]
    split
    · exact same
    split
    · exact same
    exact known.create username password salt
  | alterUser username password salt =>
    simp only [execute]
    split
    · exact same
    split
    · exact same
    simp only [Command.created, append_nil, ite_self]
    exact known.alter own password salt
  | dropUser username =>
    simp only [execute]
    split
    · exact same
    split
    · exact same
    simp only [Command.created, append_nil, ite_self]
    exact known.drop username
  | grant privileges resource username =>
    simp only [execute, Command.created, append_nil, ite_self]
    split
    · exact known
    rename_i authenticated
    have member := held.sessions connection (by simpa using authenticated)
    rcases @executePrivilege_cases _ _ handler state.catalog (state.sessions connection) true
      privileges resource username with
      ⟨-, same⟩ | ⟨list, some, valid, ⟨-, delegates, same⟩ | ⟨revoking, -⟩⟩
    · rw [same]
      exact known
    · rw [same]
      exact known.grant (privilegeGrant_named some resource username)
        fun _ privilege listed => known.delegated member valid delegates listed
    · cases revoking
  | revoke privileges resource username =>
    simp only [execute, Command.created, append_nil, ite_self]
    split
    · exact known
    rcases @executePrivilege_cases _ _ handler state.catalog (state.sessions connection) false
      privileges resource username with
      ⟨-, same⟩ | ⟨list, -, -, ⟨granting, -⟩ | ⟨-, same⟩⟩
    · rw [same]
      exact known
    · cases granting
    · rw [same]
      exact known.revoke _

theorem execute_session (catalog : SystemCatalog Salt Hash) (session : Session)
    (command : Command Salt) :
    (execute handler derive catalog session command).2.2 = session ∨
      ∃ username password database, command = .login username password database ∧
        catalog.authenticate derive username password = true ∧
        (execute handler derive catalog session command).2.2.username = username := by
  cases command with
  | login username password database =>
    exact (login_cases catalog session username password database).imp And.right
      fun result => ⟨username, password, database, rfl, result.2⟩
  | createUser | alterUser | dropUser =>
    simp only [execute]
    split_ifs <;> exact .inl rfl
  | grant | revoke =>
    simp only [execute]
    split <;> exact .inl rfl

theorem held_step {action : GroupAction Salt}
    (held : Held derive state) (honest : Honest derive state action)
    (own : AltersOwn state action)
    (taken : groupStep handler derive state action = some next) : Held derive next := by
  cases action with
  | rootGrant privileges resource username => exact held.rootGrant taken
  | member connection command =>
    obtain rfl := Option.some.inj taken
    refine ⟨held.execute_bounded own (held.bounded.learn honest), fun other authenticated => ?_⟩
    dsimp only at authenticated ⊢
    have before : (Function.update state.sessions connection (execute handler derive state.catalog
        (state.sessions connection) command).2.2 other).username ∈ state.members := by
      by_cases same : other = connection
      · subst same
        rw [Function.update_self] at authenticated ⊢
        rcases @execute_session _ _ handler derive _ state.catalog (state.sessions other) command
          with kept | ⟨username, password, database, rfl, success, name⟩
        · rw [kept] at authenticated ⊢
          exact held.sessions other authenticated
        · rw [name]
          exact authenticate_member (honest password mem_cons_self) success
      · rw [Function.update_of_ne same] at authenticated ⊢
        exact held.sessions other authenticated
    split
    · exact mem_append_left _ before
    · exact before

/-- As long as the group alters its own accounts only, no name it can use is allowed
anything that root did not grant to one of its members. A grant to an account outside the group
does not count, also if the group drops and creates that account later. -/
theorem group_stays_confined {first last : GroupState Salt Hash} (start : Start derive first)
    (run : Reaches (groupStep handler derive)
      (fun state action => Honest derive state action ∧ AltersOwn state action) first last) :
    Confined derive last := by
  have held : Held derive last := reaches_invariant (Held derive)
    (fun state action next held met taken => held_step held met.1 met.2 taken) start.held run
  exact held.confined

end Invariant

section Decidable

variable {Salt Hash : Type} [DecidableEq Hash] (derive : Salt → String → Hash)

instance (state : GroupState Salt Hash) (password : String) :
    Decidable (NotGuessed derive state password) := by
  unfold NotGuessed
  infer_instance

instance (state : GroupState Salt Hash) (action : GroupAction Salt) :
    Decidable (Honest derive state action) := by
  cases action <;> dsimp only [Honest] <;> infer_instance

instance (state : GroupState Salt Hash) (action : GroupAction Salt) :
    Decidable (AltersOwn state action) := by
  unfold AltersOwn
  split <;> infer_instance

end Decidable

def plainDerive (_ : Unit) (password : String) : String := password

def exampleHandler : Handler := ⟨fun _ => true, fun _ _ => true⟩

def exampleGroup : GroupState Unit String where
  catalog := ⟨3, [⟨1, "root", (), "root-password"⟩, ⟨2, "alice", (), "alice-password"⟩], ["sys"], []⟩
  sessions := fun _ => ⟨"", false, ""⟩
  members := ["alice"]
  known := ["alice-password"]
  rootGrants := []

theorem exampleGroup_start : Start plainDerive exampleGroup where
  rootUser := by decide
  rootOutside := by decide
  owners := by simp [exampleGroup]
  grants := rfl
  named := by simp [exampleGroup]
  passwords := by decide
  sessions := fun _ => rfl

def sysDatabase : Resource := .database "sys" (by decide)

def rootGrantsToAlice : List (GroupAction Unit) :=
  [.rootGrant ["CREATE_USER", "GRANT"] .global "alice",
    .rootGrant ["SELECT"] sysDatabase "alice",
    .member 0 (.login "alice" "alice-password" "")]

def aliceDelegates : List (GroupAction Unit) :=
  rootGrantsToAlice ++
    [.member 0 (.createUser "carol" "carol-password" ()),
      .member 0 (.grant ["SELECT"] sysDatabase "carol"),
      .member 1 (.login "carol" "carol-password" "sys")]

theorem aliceDelegates_runs :
    (run (groupStep exampleHandler plainDerive)
      (fun state action => Honest plainDerive state action ∧ AltersOwn state action)
      exampleGroup aliceDelegates).isSome = true := by
  decide +kernel

theorem group_stays_confined_delegating :
    ∃ last, CanUse plainDerive last "carol" ∧
      last.catalog.allowed "carol" .select "sys" "t" = true ∧ Confined plainDerive last := by
  refine ⟨_, .inl ⟨1, ?_, ?_⟩, ?_,
    group_stays_confined exampleGroup_start (run_get_reaches aliceDelegates_runs)⟩
  · decide +kernel
  · decide +kernel
  · decide +kernel

def aliceAltersRoot : List (GroupAction Unit) :=
  rootGrantsToAlice ++ [.member 0 (.alterUser "root" "alice-chosen" ())]

theorem aliceAltersRoot_runs :
    (run (groupStep exampleHandler plainDerive) (Honest plainDerive) exampleGroup
      aliceAltersRoot).isSome = true := by
  decide +kernel

/-- With `CREATE_USER` alone the group logs in as root and is allowed everything. -/
theorem group_becomes_root :
    ∃ first last, Start plainDerive first ∧
      Reaches (groupStep exampleHandler plainDerive) (Honest plainDerive) first last ∧
      ¬Confined plainDerive last := by
  refine ⟨exampleGroup, _, exampleGroup_start, run_get_reaches aliceAltersRoot_runs, ?_⟩
  intro confined
  have use : CanUse plainDerive ((run (groupStep exampleHandler plainDerive)
      (Honest plainDerive) exampleGroup aliceAltersRoot).get aliceAltersRoot_runs) "root" :=
    .inr ⟨"alice-chosen", by decide +kernel, by decide +kernel⟩
  obtain ⟨grant, given, granted⟩ := confined "root" use .delete "sys" "t" rfl
  have none : ∀ grant ∈ ((run (groupStep exampleHandler plainDerive) (Honest plainDerive)
      exampleGroup aliceAltersRoot).get aliceAltersRoot_runs).rootGrants,
      Privilege.all ∉ grant.privileges ∧ Privilege.delete ∉ grant.privileges := by
    decide +kernel
  rcases granted with ⟨-, all | one⟩ | ⟨connect, -⟩
  · exact (none grant given).1 all
  · exact (none grant given).2 one
  · cases connect

end CsuDbms.SystemCatalogModel
