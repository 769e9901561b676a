import CsuDbms.CatalogPersistence

/-!
# CREATE DATABASE and DROP DATABASE

The two commands of `DatabaseService` change the directory of a database and
the list of databases in the catalog, one after the other. A step may fail, and
the process may stop after any step; then `DefaultHandler::init` and
`DatabaseService::initialize` start from the directories and the catalog file.

What a directory contains is left out: `Db::init` accepts each one at start-up.
The test of privileges only refuses a command, and the session that moves to
`sys` has its own model.
-/

namespace CsuDbms.DatabaseCommands

open CatalogFileModel
open SystemCatalogModel (validIdentifier isIdentifier)

def sysName : String := "sys"

/-- A name as the patterns of the two commands accept it, of any length. -/
abbrev DatabaseName := { text : String // isIdentifier text = true }

inductive HandlerRC where
  | rc (code : RC)
  | fileRemove
  | schemaDbNotOpened
  | openFailed
  | syncFailed
  deriving DecidableEq, Repr

def HandlerRC.success : HandlerRC := .rc .success

/-- `opened` are the keys of `opened_dbs_`; `up` is false after a crash. -/
structure Install where
  store : Store
  directories : List String
  opened : List String
  up : Bool

def Install.initial (saltHex hashHex : String) : Install :=
  ⟨Store.initial saltHex hashHex, [sysName], [sysName], true⟩

inductive Stage where
  | createDirectory
  | openDatabase
  | saveCatalog
  | closeDatabase
  | removeDirectory
  deriving DecidableEq, Repr

inductive Fault where
  | error (stage : Stage)
  | crash (stage : Stage)
  deriving DecidableEq, Repr

inductive Progress where
  | continues (install : Install)
  | returns (rc : HandlerRC) (install : Install)
  | crashes (install : Install)

def Progress.andThen (progress : Progress) (following : Install → Progress) : Progress :=
  match progress with
  | .continues install => following install
  | .returns rc install => .returns rc install
  | .crashes install => .crashes install

def atStage (stage : Stage) (rc : HandlerRC) (change : Install → Install) (fault : Option Fault)
    (install : Install) : Progress :=
  if fault = some (.error stage) then .returns rc install
  else if fault = some (.crash stage) then .crashes (change install)
  else .continues (change install)

def createDb (name : String) (fault : Option Fault) (install : Install) : Progress :=
  if name ∈ install.directories then .returns (.rc .schemaDbExist) install
  else
    atStage .createDirectory (.rc .ioerrWrite)
      (fun install => { install with directories := name :: install.directories }) fault install

def openDb (name : String) (fault : Option Fault) (install : Install) : Progress :=
  if name ∈ install.opened then .continues install
  else if name ∉ install.directories then .returns (.rc .schemaDbNotExist) install
  else
    atStage .openDatabase .openFailed
      (fun install => { install with opened := name :: install.opened }) fault install

def closeDb (name : String) (fault : Option Fault) (install : Install) : Progress :=
  if name ∉ install.opened then .returns .schemaDbNotOpened install
  else
    atStage .closeDatabase .syncFailed
      (fun install => { install with opened := install.opened.filter fun other => other ≠ name })
      fault install

def removeDirectory (name : String) : Option Fault → Install → Progress :=
  atStage .removeDirectory .fileRemove fun install =>
    { install with directories := install.directories.filter fun other => other ≠ name }

def dropDb (name : String) (fault : Option Fault) (install : Install) : Progress :=
  if name = sysName then .returns (.rc .invalidArgument) install
  else if name ∉ install.directories then .returns (.rc .schemaDbNotExist) install
  else
    match closeDb name fault install with
    | .returns .schemaDbNotOpened closed => removeDirectory name fault closed
    | progress => progress.andThen (removeDirectory name fault)

def changeCatalog (call : Call) (fault : Option Fault) (install : Install) : Progress :=
  let (rc, store) := perform install.store call (fault ≠ some (.error .saveCatalog))
  let changed := { install with store := store }
  if fault = some (.crash .saveCatalog) then .crashes changed else .returns (.rc rc) changed

inductive Command where
  | createDatabase (ifNotExists : Bool) (name : DatabaseName)
  | dropDatabase (ifExists : Bool) (name : DatabaseName)

def execute (command : Command) (fault : Option Fault) (install : Install) : Progress :=
  match command with
  | .createDatabase ifNotExists name =>
    if name.1 ∈ install.store.memory.databases then
      .returns (if ifNotExists then .success else .rc .schemaDbExist) install
    else
      ((createDb name fault install).andThen (openDb name fault)).andThen
        (changeCatalog (.addDatabase name) fault)
  | .dropDatabase ifExists name =>
    if name.1 ∉ install.store.memory.databases then
      .returns (if ifExists then .success else .rc .schemaDbNotExist) install
    else (dropDb name fault install).andThen (changeCatalog (.removeDatabase name) fault)

def openAll : List String → Install → Progress
  | [], install => .continues install
  | database :: rest, install =>
    if database = sysName then openAll rest install
    else (openDb database none install).andThen (openAll rest)

/-- `DatabaseService::initialize`; a conversion of the document that throws ends the process. -/
def initializeService (install : Install) : Progress :=
  match loadUnlocked install.store.file with
  | none => .crashes install
  | some (rc, catalog) =>
    let loaded := { install with store := { install.store with memory := catalog } }
    if rc = .success then openAll catalog.databases loaded else .returns (.rc rc) loaded

def handlerInit (install : Install) : Install :=
  { install with
    directories :=
      if sysName ∈ install.directories then install.directories
      else sysName :: install.directories
    opened := [sysName]
    up := true }

def restart (install : Install) : Progress := initializeService (handlerInit install)

inductive Action where
  | command (command : Command) (fault : Option Fault)
  | restart

def step (install : Install) : Action → Option Install
  | .command command fault =>
    if install.up then
      match execute command fault install with
      | .continues next | .returns _ next => some next
      | .crashes next => some { next with up := false }
    else none
  | .restart =>
    match restart install with
    | .continues next => some next
    | .returns _ _ | .crashes _ => none

/-- The next start-up succeeds, and the catalog lists the directories besides `sys`. -/
def StartsWhole (install : Install) : Prop :=
  ∃ next, restart install = .continues next ∧
    ∀ name, name ≠ sysName → (name ∈ next.store.memory.databases ↔ name ∈ next.directories)

/-- After an error the command does what it would have done without the failed attempt. -/
def Repeatable (install : Install) (command : Command) (fault : Option Fault) : Prop :=
  ∀ rc next, execute command fault install = .returns rc next → rc ≠ .success →
    ∀ again, execute command again next = execute command again install

end CsuDbms.DatabaseCommands
