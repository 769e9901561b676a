import Mathlib

/-!
# Users, privileges and the management commands

Pure transcription of `SystemCatalog` and of the user and privilege commands in
`DatabaseService::execute_management`, with `DatabaseService::login`. A command is given by the
fields its regular expression captures. Key derivation is a parameter, and the random salt of a new
password an argument of the command. Saving the catalog does not change it in memory and is left
out, as are the databases and tables, which no command here changes.
-/

namespace CsuDbms.SystemCatalogModel

inductive RC where
  | success
  | invalidArgument
  | userExist
  | userNotExist
  | authenticationFailed
  | authorizationDenied
  | schemaDbNotExist
  | schemaTableNotExist
  deriving DecidableEq, Repr

/-- The privileges of `valid_privilege`, and `CONNECT`, which is asked for and never
granted. -/
inductive Privilege where
  | all
  | select
  | insert
  | update
  | delete
  | create
  | drop
  | createUser
  | grant
  | connect
  deriving DecidableEq, Repr

def validPrivilege (text : String) : Option Privilege :=
  match text with
  | "ALL" => some .all
  | "SELECT" => some .select
  | "INSERT" => some .insert
  | "UPDATE" => some .update
  | "DELETE" => some .delete
  | "CREATE" => some .create
  | "DROP" => some .drop
  | "CREATE_USER" => some .createUser
  | "GRANT" => some .grant
  | _ => none

inductive Scope where
  | global
  | database
  | table
  deriving DecidableEq, Repr

structure PrivilegeGrant where
  username : String
  scope : Scope
  database : String
  table : String
  privileges : List Privilege
  deriving DecidableEq, Repr

structure UserRecord (Salt Hash : Type) where
  id : Nat
  username : String
  salt : Salt
  hash : Hash

structure SystemCatalog (Salt Hash : Type) where
  nextUserId : Nat
  users : List (UserRecord Salt Hash)
  databases : List String
  grants : List PrivilegeGrant

def rootName : String := "root"

/-- `[A-Za-z_][A-Za-z0-9_]*`, the names the regular expressions and `valid_identifier`
accept. -/
def isIdentifier (text : String) : Bool :=
  match text.toList with
  | [] => false
  | first :: rest =>
    (first.isAlpha || first == '_') && rest.all fun char => char.isAlphanum || char == '_'

def validIdentifier (text : String) : Bool := isIdentifier text && text.utf8ByteSize ≤ 64

/-- The resource of a `GRANT` or `REVOKE`: `*.*`, a database, or a table of one. -/
inductive Resource where
  | global
  | database (name : String) (valid : isIdentifier name = true)
  | table (database table : String) (valid : isIdentifier database = true)
      (validTable : isIdentifier table = true)

namespace Resource

def scope : Resource → Scope
  | global => .global
  | database _ _ => .database
  | table _ _ _ _ => .table

def databaseName : Resource → String
  | global => ""
  | database name _ => name
  | table name _ _ _ => name

def tableName : Resource → String
  | global => ""
  | database _ _ => ""
  | table _ name _ _ => name

end Resource

namespace PrivilegeGrant

def resourceMatches (grant : PrivilegeGrant) (database table : String) : Bool :=
  match grant.scope with
  | .global => true
  | .database => grant.database == database
  | .table => grant.database == database && grant.table == table

def sameResource (grant other : PrivilegeGrant) : Bool :=
  grant.username == other.username && grant.scope == other.scope &&
    grant.database == other.database && grant.table == other.table

def allows (grant : PrivilegeGrant) (requested : Privilege) (database table : String) : Bool :=
  (requested == .connect && grant.database == database &&
      (grant.scope == .database || grant.scope == .table)) ||
    (grant.resourceMatches database table &&
      (grant.privileges.contains .all || grant.privileges.contains requested))

end PrivilegeGrant

namespace SystemCatalog

variable {Salt Hash : Type}

def hasUser (catalog : SystemCatalog Salt Hash) (username : String) : Bool :=
  catalog.users.any fun user => user.username == username

def allowed (catalog : SystemCatalog Salt Hash) (username : String) (requested : Privilege)
    (database table : String) : Bool :=
  username == rootName ||
    catalog.grants.any fun grant =>
      grant.username == username && grant.allows requested database table

variable (derive : Salt → String → Hash)

section Passwords

variable [DecidableEq Hash]

def authenticate (catalog : SystemCatalog Salt Hash) (username password : String) : Bool :=
  match catalog.users.find? fun user => user.username == username with
  | none => false
  | some user => derive user.salt password == user.hash

end Passwords

/-- The length test of `set_password_unlocked`. -/
def validPassword (password : String) : Bool := 8 ≤ password.utf8ByteSize && password.utf8ByteSize ≤ 1024

def createUser (catalog : SystemCatalog Salt Hash) (username password : String) (salt : Salt) :
    RC × SystemCatalog Salt Hash :=
  if !validIdentifier username then (.invalidArgument, catalog)
  else if catalog.hasUser username then (.userExist, catalog)
  else if !validPassword password then
    (.invalidArgument, { catalog with nextUserId := catalog.nextUserId + 1 })
  else
    (.success,
      { catalog with
          nextUserId := catalog.nextUserId + 1
          users := catalog.users ++
            [⟨catalog.nextUserId, username, salt, derive salt password⟩] })

def setPassword (username password : String) (salt : Salt) :
    List (UserRecord Salt Hash) → List (UserRecord Salt Hash)
  | [] => []
  | user :: rest =>
    if user.username == username then
      { user with salt := salt, hash := derive salt password } :: rest
    else user :: setPassword username password salt rest

def alterUser (catalog : SystemCatalog Salt Hash) (username password : String) (salt : Salt) :
    RC × SystemCatalog Salt Hash :=
  if !catalog.hasUser username then (.userNotExist, catalog)
  else if !validPassword password then (.invalidArgument, catalog)
  else (.success, { catalog with users := setPassword derive username password salt catalog.users })

def dropUser (catalog : SystemCatalog Salt Hash) (username : String) :
    RC × SystemCatalog Salt Hash :=
  if username == rootName then (.authorizationDenied, catalog)
  else if !catalog.hasUser username then (.userNotExist, catalog)
  else
    (.success,
      { catalog with
          users := catalog.users.filter fun user => !(user.username == username)
          grants := catalog.grants.filter fun grant => !(grant.username == username) })

def addPrivilege (held : List Privilege) (privilege : Privilege) : List Privilege :=
  if held.contains privilege then held else held ++ [privilege]

def mergeGrant (input : PrivilegeGrant) : List PrivilegeGrant → List PrivilegeGrant
  | [] => [input]
  | grant :: rest =>
    if grant.sameResource input then
      { grant with privileges := input.privileges.foldl addPrivilege grant.privileges } :: rest
    else grant :: mergeGrant input rest

def grant (catalog : SystemCatalog Salt Hash) (input : PrivilegeGrant) :
    RC × SystemCatalog Salt Hash :=
  if !catalog.hasUser input.username then (.userNotExist, catalog)
  else (.success, { catalog with grants := mergeGrant input catalog.grants })

def revoke (catalog : SystemCatalog Salt Hash) (input : PrivilegeGrant) :
    RC × SystemCatalog Salt Hash :=
  (.success,
    { catalog with
        grants := (catalog.grants.map fun grant =>
            if grant.sameResource input then
              { grant with privileges :=
                  grant.privileges.filter fun privilege => !input.privileges.contains privilege }
            else grant).filter fun grant => !grant.privileges.isEmpty })

end SystemCatalog

/-- What the handler knows of the databases: which are open, and their tables. -/
structure Handler where
  hasDb : String → Bool
  hasTable : String → String → Bool

structure Session where
  username : String
  authenticated : Bool
  currentDb : String
  deriving DecidableEq, Repr

inductive Command (Salt : Type) where
  | login (username password database : String)
  | createUser (username password : String) (salt : Salt)
  | alterUser (username password : String) (salt : Salt)
  | dropUser (username : String)
  | grant (privileges : List String) (resource : Resource) (username : String)
  | revoke (privileges : List String) (resource : Resource) (username : String)

section Service

variable {Salt Hash : Type} (handler : Handler)

def databaseExists (catalog : SystemCatalog Salt Hash) (database : String) : Bool :=
  catalog.databases.contains database && handler.hasDb database

def resourceExists (catalog : SystemCatalog Salt Hash) (resource : Resource) : RC :=
  match resource with
  | .global => .success
  | .database name _ =>
    if databaseExists handler catalog name then .success else .schemaDbNotExist
  | .table name table _ _ =>
    if !databaseExists handler catalog name then .schemaDbNotExist
    else if handler.hasTable name table then .success else .schemaTableNotExist

def canAdmin (catalog : SystemCatalog Salt Hash) (session : Session) (privilege : Privilege) :
    Bool :=
  session.username == rootName || catalog.allowed session.username privilege "" ""

def privilegeGrant (privileges : List Privilege) (resource : Resource) (username : String) :
    PrivilegeGrant :=
  ⟨username, resource.scope, resource.databaseName, resource.tableName, privileges⟩

/-- Nobody but root hands out `ALL` or what is not allowed to oneself. -/
def mayDelegate (catalog : SystemCatalog Salt Hash) (session : Session)
    (grant : PrivilegeGrant) : Bool :=
  session.username == rootName ||
    grant.privileges.all fun privilege =>
      !(privilege == .all) &&
        catalog.allowed session.username privilege grant.database grant.table

def executePrivilege (catalog : SystemCatalog Salt Hash) (session : Session) (isGrant : Bool)
    (privileges : List String) (resource : Resource) (username : String) :
    RC × SystemCatalog Salt Hash :=
  if !canAdmin catalog session .grant then (.authorizationDenied, catalog)
  else
    match privileges.mapM validPrivilege with
    | none => (.invalidArgument, catalog)
    | some [] => (.invalidArgument, catalog)
    | some (first :: rest) =>
      let grant := privilegeGrant (first :: rest) resource username
      match resourceExists handler catalog resource with
      | .success =>
        if isGrant then
          if mayDelegate catalog session grant then catalog.grant grant
          else (.authorizationDenied, catalog)
        else catalog.revoke grant
      | rc => (rc, catalog)

variable [DecidableEq Hash] (derive : Salt → String → Hash)

/-- `DatabaseService::login`: the result, and the session afterwards. -/
def login (catalog : SystemCatalog Salt Hash) (session : Session)
    (username password database : String) : RC × Session :=
  let target := if database = "" then "sys" else database
  if !catalog.authenticate derive username password then (.authenticationFailed, session)
  else if !databaseExists handler catalog target then (.schemaDbNotExist, session)
  else if username != rootName && !catalog.allowed username .connect target "" then
    (.authorizationDenied, session)
  else (.success, ⟨username, true, target⟩)

/-- `DatabaseService::execute` for one command of a connection. -/
def execute (catalog : SystemCatalog Salt Hash) (session : Session) (command : Command Salt) :
    RC × SystemCatalog Salt Hash × Session :=
  match command with
  | .login username password database =>
    let result := login handler derive catalog session username password database
    (result.1, catalog, result.2)
  | .createUser username password salt =>
    if !session.authenticated then (.authenticationFailed, catalog, session)
    else if !canAdmin catalog session .createUser then (.authorizationDenied, catalog, session)
    else
      let result := catalog.createUser derive username password salt
      (result.1, result.2, session)
  | .alterUser username password salt =>
    if !session.authenticated then (.authenticationFailed, catalog, session)
    else if session.username != username && !canAdmin catalog session .createUser then
      (.authorizationDenied, catalog, session)
    else
      let result := catalog.alterUser derive username password salt
      (result.1, result.2, session)
  | .dropUser username =>
    if !session.authenticated then (.authenticationFailed, catalog, session)
    else if !canAdmin catalog session .createUser then (.authorizationDenied, catalog, session)
    else
      let result := catalog.dropUser username
      (result.1, result.2, session)
  | .grant privileges resource username =>
    if !session.authenticated then (.authenticationFailed, catalog, session)
    else
      let result := executePrivilege handler catalog session true privileges resource username
      (result.1, result.2, session)
  | .revoke privileges resource username =>
    if !session.authenticated then (.authenticationFailed, catalog, session)
    else
      let result := executePrivilege handler catalog session false privileges resource username
      (result.1, result.2, session)

end Service

theorem allowed_iff {Salt Hash : Type} {catalog : SystemCatalog Salt Hash} {username : String}
    (notRoot : username ≠ rootName) {requested : Privilege} {database table : String} :
    catalog.allowed username requested database table = true ↔
      ∃ grant ∈ catalog.grants, grant.username = username ∧
        grant.allows requested database table = true := by
  simp [SystemCatalog.allowed, notRoot]

theorem allows_iff {grant : PrivilegeGrant} {requested : Privilege} {database table : String} :
    grant.allows requested database table = true ↔
      (requested = .connect ∧ grant.database = database ∧ grant.scope ≠ .global) ∨
        (grant.resourceMatches database table = true ∧
          (.all ∈ grant.privileges ∨ requested ∈ grant.privileges)) := by
  have kinds : (grant.scope == .database || grant.scope == .table) = true ↔
      grant.scope ≠ .global := by cases grant.scope <;> simp
  rw [PrivilegeGrant.allows, Bool.or_eq_true, Bool.and_eq_true, Bool.and_eq_true,
    Bool.and_eq_true, kinds]
  simp [and_assoc]

end CsuDbms.SystemCatalogModel
