import CsuDbms.MvccTrxPending

/-!
# Sessions and the transactions they hold

`Session` keeps a pointer to its current database and one to at most one transaction. `current_trx`
makes the transaction in the kit of the database that is current then; `USE` and the destructor
delete the object, `LOGIN` and `DROP DATABASE` only move the database pointer. The object keeps its
kit, so its ids are drawn there even after the session has moved on.

All tables of the server share one heap here. A table belongs to one opened `Db` object, given by
`home`; the object of session `s` is `heap.trxs s` and runs with the counter of its own kit. A
statement that would follow a pointer into a deleted `Db` is not enabled. Privilege checks, which
only refuse a statement, are left out, and so is the flag for explicit transactions: `COMMIT` may
come at any time.
-/

namespace CsuDbms.SessionModel

open MvccTrxModel

/-- `trx` is the kit of the transaction object, when there is one. -/
structure Session where
  db : Nat
  trx : Option Nat
  deriving DecidableEq, Repr

structure Server where
  heap : Db
  counters : Nat → Int
  opened : List (String × Nat)
  made : Nat
  sessions : Nat → Option Session

def sysName : String := "sys"

def Server.start : Server where
  heap := .empty
  counters := fun _ => 0
  opened := [(sysName, 0)]
  made := 1
  sessions := fun _ => none

def Server.findDb (server : Server) (name : String) : Option Nat :=
  server.opened.lookup name

def Server.isOpen (server : Server) (db : Nat) : Bool :=
  server.opened.any fun entry => entry.2 == db

def Server.setSession (server : Server) (s : Nat) (session : Option Session) : Server :=
  { server with sessions := Function.update server.sessions s session }

inductive ServerAction where
  | connect (s : Nat)
  | createDatabase (name : String)
  | currentTrx (s : Nat)
  | statement (action : Action)
  | use (s : Nat) (name : String)
  | login (s : Nat) (name : String)
  | dropDatabase (s : Nat) (name : String) (closed : Bool)
  | disconnect (s : Nat)
  deriving DecidableEq, Repr

/-- The database whose records an action of a transaction reaches: the current
one for a new operation, that of the operation in a loop. -/
def reachedDb (home : Int → Nat) (server : Server) (session : Session) : Action → Option Nat
  | .insertRecord _ rid | .deleteRecord _ rid =>
    if home rid.tableId = session.db then some session.db else none
  | .commitNext s | .rollbackNext s =>
    ((server.heap.trxs s).pending.head?).map fun operation => home operation.rid.tableId
  | _ => some session.db

/-- These go through `current_trx`, which makes an object when there is none. -/
def makesTrx : Action → Bool
  | .startIfNeed _ | .commit _ | .rollback _ => true
  | _ => false

def endsTrx : Action → Bool
  | .commitEnd _ | .rollbackEnd _ => true
  | _ => false

/-- A step of the transaction of session `action.handle`, with the counter of
the kit that the object belongs to. -/
def Server.statement (home : Int → Nat) (server : Server) (action : Action) : Option Server :=
  match server.sessions action.handle with
  | none => none
  | some session =>
    match (if makesTrx action then some (session.trx.getD session.db) else session.trx),
        reachedDb home server session action with
    | some kit, some db =>
      if server.isOpen kit ∧ server.isOpen db ∧ server.isOpen session.db ∧
          action ≠ .destroyTrx action.handle then
        (step { server.heap with currentTrxId := server.counters kit } action).map fun heap =>
          { server with
            heap := heap
            counters := Function.update server.counters kit heap.currentTrxId
            sessions := Function.update server.sessions action.handle
              (some { session with trx := if endsTrx action then none else some kit }) }
      else none
    | _, _ => none

/-- `Session::destroy_trx`: the object is deleted as it is. -/
def Server.destroyTrx (server : Server) (s : Nat) : Server :=
  { server with heap := server.heap.setTrx s {} }

/-- `DefaultHandler::close_db` and the removal of the files. -/
def Server.closeDb (home : Int → Nat) (server : Server) (name : String) (db : Nat) : Server :=
  { server with
    opened := server.opened.filter fun entry => entry.1 ≠ name
    heap := { server.heap with
      records := fun rid =>
        if home rid.tableId = db then none else server.heap.records rid } }

/-- The session is between two statements. -/
def Server.settled (server : Server) (s : Nat) : Prop :=
  (server.heap.trxs s).endLoop = .none

instance (server : Server) (s : Nat) : Decidable (server.settled s) :=
  inferInstanceAs (Decidable (_ = _))

def serverStep (home : Int → Nat) (server : Server) : ServerAction → Option Server
  | .connect s =>
    if server.sessions s = none then
      (server.findDb sysName).map fun db => server.setSession s (some { db := db, trx := none })
    else none
  | .createDatabase name =>
    if server.findDb name = none then
      some { server with
        opened := (name, server.made) :: server.opened
        made := server.made + 1
        counters := Function.update server.counters server.made 0 }
    else none
  | .currentTrx s =>
    match server.sessions s with
    | some session =>
      if server.isOpen session.db then
        some (server.setSession s
          (some { session with trx := some (session.trx.getD session.db) }))
      else none
    | none => none
  | .statement action => server.statement home action
  | .use s name =>
    match server.sessions s, server.findDb name with
    | some session, some db =>
      if server.settled s ∧ (session.trx = none ∨ server.isOpen session.db) then
        some ((server.destroyTrx s).setSession s (some { db := db, trx := none }))
      else none
    | _, _ => none
  | .login s name =>
    match server.sessions s, server.findDb name with
    | some session, some db =>
      if server.settled s then some (server.setSession s (some { session with db := db }))
      else none
    | _, _ => none
  | .dropDatabase s name closed =>
    match server.sessions s, server.findDb name, server.findDb sysName with
    | some session, some db, some sys =>
      if server.settled s ∧ server.isOpen session.db ∧ name ≠ sysName then
        let moved := server.setSession s
          (some { session with db := if session.db = db then sys else session.db })
        some (if closed then moved.closeDb home name db else moved)
      else none
    | _, _, _ => none
  | .disconnect s =>
    match server.sessions s with
    | some session =>
      if server.settled s ∧ (session.trx = none ∨ server.isOpen session.db) then
        some ((server.destroyTrx s).setSession s none)
      else none
    | none => none

end CsuDbms.SessionModel
