import CsuDbms.SystemCatalogModel
import CsuDbms.TransitionSystem

/-!
# The system catalog and its file

`SystemCatalog` with the texts it keeps and the document that `save_unlocked`
writes and `load_unlocked` reads. The JSON library and the atomic rename are
taken as correct: a save either replaces the document or leaves it. Random salt
and derived key are what the library returns, if it returns them.
-/

namespace CsuDbms.CatalogFileModel

open SystemCatalogModel (validIdentifier rootName)

inductive RC where
  | success
  | invalidArgument
  | internal
  | userExist
  | userNotExist
  | authorizationDenied
  | schemaDbExist
  | schemaDbNotExist
  | ioerrWrite
  | jsonMemberMissing
  deriving DecidableEq, Repr

structure UserRecord where
  id : UInt64
  username : String
  saltHex : String
  hashHex : String
  iterations : UInt64
  deriving DecidableEq, Repr

structure PrivilegeGrant where
  username : String
  scope : String
  database : String
  table : String
  privileges : List String
  deriving DecidableEq, Repr

structure Catalog where
  nextUserId : UInt64
  users : List UserRecord
  databases : List String
  grants : List PrivilegeGrant
  deriving DecidableEq, Repr

inductive Json where
  | null
  | uint (value : UInt64)
  | string (value : String)
  | array (items : List Json)
  | object (members : List (String × Json))

namespace Json

def member (key : String) : Json → Json
  | object members => (members.lookup key).getD null
  | _ => null

def elements : Json → List Json
  | array items => items
  | _ => []

/-- None is the exception that the conversion throws. -/
def asUInt64 : Json → Option UInt64
  | uint value => some value
  | null => some 0
  | _ => none

def asString : Json → Option String
  | string value => some value
  | uint value => some (toString value)
  | null => some ""
  | _ => none

def appended (key : String) (items : List Json) : List (String × Json) :=
  if items.isEmpty then [] else [(key, array items)]

end Json

def passwordJson (user : UserRecord) : Json :=
  .object [("algorithm", .string "PBKDF2-HMAC-SHA256"), ("iterations", .uint user.iterations),
    ("salt", .string user.saltHex), ("hash", .string user.hashHex)]

def userJson (user : UserRecord) : Json :=
  .object [("id", .uint user.id), ("username", .string user.username),
    ("password", passwordJson user)]

def grantJson (grant : PrivilegeGrant) : Json :=
  .object ([("username", .string grant.username), ("scope", .string grant.scope),
    ("database", .string grant.database), ("table", .string grant.table)] ++
      Json.appended "privileges" (grant.privileges.map .string))

/-- The document of `SystemCatalog::save_unlocked`. -/
def catalogJson (catalog : Catalog) : Json :=
  .object ([("format_version", .uint 1), ("next_user_id", .uint catalog.nextUserId)] ++
    Json.appended "users" (catalog.users.map userJson) ++
    Json.appended "databases" (catalog.databases.map .string) ++
    Json.appended "grants" (catalog.grants.map grantJson))

/-- `value.get(key, preset).asUInt64()`. -/
def Json.uintOr (key : String) (preset : UInt64) (value : Json) : Option UInt64 :=
  match value.member key with
  | .null => some preset
  | found => found.asUInt64

def loadUser (value : Json) : Option UserRecord := do
  let id ← (value.member "id").asUInt64
  let username ← (value.member "username").asString
  let iterations ← (value.member "password").uintOr "iterations" 210000
  let saltHex ← ((value.member "password").member "salt").asString
  let hashHex ← ((value.member "password").member "hash").asString
  some ⟨id, username, saltHex, hashHex, iterations⟩

def loadGrant (value : Json) : Option PrivilegeGrant := do
  let username ← (value.member "username").asString
  let scope ← (value.member "scope").asString
  let database ← (value.member "database").asString
  let table ← (value.member "table").asString
  let privileges ← (value.member "privileges").elements.mapM Json.asString
  some ⟨username, scope, database, table, privileges⟩

/-- `SystemCatalog::load_unlocked` on a document that parses; none if a conversion throws. -/
def loadUnlocked (root : Json) : Option (RC × Catalog) := do
  let nextUserId ← root.uintOr "next_user_id" 1
  let users ← (root.member "users").elements.mapM loadUser
  let databases ← (root.member "databases").elements.mapM Json.asString
  let grants ← (root.member "grants").elements.mapM loadGrant
  some (if users.isEmpty then .jsonMemberMissing else .success,
    ⟨nextUserId, users, databases, grants⟩)

/-- How an operation ends: with a code before saving, or with a catalog to be saved. -/
inductive Outcome where
  | stop (rc : RC) (catalog : Catalog)
  | save (catalog : Catalog)

abbrev Derived := Option (String × String)

def setPassword (user : UserRecord) (password : String) (derived : Derived) :
    Except RC UserRecord :=
  if password.utf8ByteSize < 8 ∨ 1024 < password.utf8ByteSize then .error .invalidArgument
  else
    match derived with
    | none => .error .internal
    | some (saltHex, hashHex) => .ok { user with saltHex, hashHex }

namespace Catalog

def hasUser (catalog : Catalog) (username : String) : Bool :=
  catalog.users.any fun user => user.username = username

/-- The id is taken before the password is checked. -/
def createUser (catalog : Catalog) (username password : String) (derived : Derived) : Outcome :=
  if !validIdentifier username then .stop .invalidArgument catalog
  else if catalog.hasUser username then .stop .userExist catalog
  else
    let counted := { catalog with nextUserId := catalog.nextUserId + 1 }
    match setPassword ⟨catalog.nextUserId, username, "", "", 210000⟩ password derived with
    | .error rc => .stop rc counted
    | .ok user => .save { counted with users := catalog.users ++ [user] }

def updateUser (username : String) (change : UserRecord → UserRecord) :
    List UserRecord → List UserRecord
  | [] => []
  | user :: rest =>
    if user.username = username then change user :: rest
    else user :: updateUser username change rest

def alterUser (catalog : Catalog) (username password : String) (derived : Derived) : Outcome :=
  match catalog.users.find? fun user => user.username = username with
  | none => .stop .userNotExist catalog
  | some user =>
    match setPassword user password derived with
    | .error rc => .stop rc catalog
    | .ok changed => .save { catalog with users := updateUser username (fun _ => changed) catalog.users }

def dropUser (catalog : Catalog) (username : String) : Outcome :=
  if username = rootName then .stop .authorizationDenied catalog
  else if !catalog.hasUser username then .stop .userNotExist catalog
  else .save
    { catalog with
      users := catalog.users.filter fun user => user.username ≠ username
      grants := catalog.grants.filter fun grant => grant.username ≠ username }

def addDatabase (catalog : Catalog) (database : String) : Outcome :=
  if !validIdentifier database then .stop .invalidArgument catalog
  else if database ∈ catalog.databases then .stop .schemaDbExist catalog
  else .save { catalog with databases := catalog.databases ++ [database] }

def removeDatabase (catalog : Catalog) (database : String) : Outcome :=
  if database = "sys" then .stop .authorizationDenied catalog
  else if database ∉ catalog.databases then .stop .schemaDbNotExist catalog
  else .save
    { catalog with
      databases := catalog.databases.erase database
      grants := catalog.grants.filter fun grant => grant.database ≠ database }

end Catalog

def PrivilegeGrant.sameResource (grant other : PrivilegeGrant) : Bool :=
  grant.username = other.username && grant.scope = other.scope &&
    grant.database = other.database && grant.table = other.table

def addPrivilege (held : List String) (privilege : String) : List String :=
  if privilege ∈ held then held else held ++ [privilege]

def mergeGrant (input : PrivilegeGrant) : List PrivilegeGrant → List PrivilegeGrant
  | [] => [input]
  | grant :: rest =>
    if grant.sameResource input then
      { grant with privileges := input.privileges.foldl addPrivilege grant.privileges } :: rest
    else grant :: mergeGrant input rest

def PrivilegeGrant.inUpperCase (grant : PrivilegeGrant) : PrivilegeGrant :=
  { grant with
    scope := grant.scope.toUpper
    privileges := grant.privileges.map String.toUpper }

namespace Catalog

def grant (catalog : Catalog) (input : PrivilegeGrant) : Outcome :=
  if !catalog.hasUser input.username then .stop .userNotExist catalog
  else .save { catalog with grants := mergeGrant input.inUpperCase catalog.grants }

def revoke (catalog : Catalog) (input : PrivilegeGrant) : Outcome :=
  let removed := input.inUpperCase
  .save
    { catalog with
      grants := (catalog.grants.map fun grant =>
          if grant.sameResource removed then
            { grant with privileges := grant.privileges.filter fun privilege =>
                privilege ∉ removed.privileges }
          else grant).filter fun grant => !grant.privileges.isEmpty }

end Catalog

inductive Call where
  | createUser (username password : String) (derived : Derived)
  | alterUser (username password : String) (derived : Derived)
  | dropUser (username : String)
  | addDatabase (database : String)
  | removeDatabase (database : String)
  | grant (input : PrivilegeGrant)
  | revoke (input : PrivilegeGrant)

def outcome (catalog : Catalog) : Call → Outcome
  | .createUser username password derived => catalog.createUser username password derived
  | .alterUser username password derived => catalog.alterUser username password derived
  | .dropUser username => catalog.dropUser username
  | .addDatabase database => catalog.addDatabase database
  | .removeDatabase database => catalog.removeDatabase database
  | .grant input => catalog.grant input
  | .revoke input => catalog.revoke input

structure Store where
  memory : Catalog
  file : Json

/-- A call: the code it returns and the store afterwards. If the save fails, the catalog in
memory stays changed. -/
def perform (store : Store) (call : Call) (saves : Bool) : RC × Store :=
  match outcome store.memory call with
  | .stop rc catalog => (rc, { store with memory := catalog })
  | .save catalog =>
    if saves then (.success, ⟨catalog, catalogJson catalog⟩)
    else (.ioerrWrite, { store with memory := catalog })

/-- `initialize_new`: root, who has the first id, and the database `sys`. -/
def initialCatalog (saltHex hashHex : String) : Catalog :=
  ⟨2, [⟨1, rootName, saltHex, hashHex, 210000⟩], ["sys"], []⟩

def Store.initial (saltHex hashHex : String) : Store :=
  ⟨initialCatalog saltHex hashHex, catalogJson (initialCatalog saltHex hashHex)⟩

inductive Action where
  | call (call : Call) (saves : Bool)
  | reopen

def step (store : Store) : Action → Option Store
  | .call call saves => some (perform store call saves).2
  | .reopen => (loadUnlocked store.file).map fun loaded => { store with memory := loaded.2 }

def InSync (store : Store) : Prop := loadUnlocked store.file = some (.success, store.memory)

end CsuDbms.CatalogFileModel
