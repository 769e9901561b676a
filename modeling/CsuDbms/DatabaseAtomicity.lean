import CsuDbms.DatabaseCommands

/-!
# Stops inside CREATE and DROP DATABASE

Start-up needs the directory of each listed database, and it accepts no
directory that is not listed as a database. `CREATE DATABASE` makes the
directory first and `DROP DATABASE` removes it first, so in both a stop between
directory and catalog parts the two. The catalog also refuses a name that is
too long when its directory has been made.
-/

namespace CsuDbms.DatabaseCommands

open TransitionSystem CatalogFileModel List Option
open SystemCatalogModel (validIdentifier isIdentifier)

/-- A command that gets past its own test changes directory and catalog both: a new name fits
the catalog, and nothing stops the command between the two. -/
def Clean (install : Install) : Action → Prop
  | .command (.createDatabase _ name) fault =>
    name.1 ∈ install.store.memory.databases ∨ fault = some (.error .createDirectory) ∨
      name.1.utf8ByteSize ≤ 64 ∧ fault ∉ [some (.crash .createDirectory),
        some (.error .openDatabase), some (.crash .openDatabase), some (.error .saveCatalog)]
  | .command (.dropDatabase _ name) fault =>
    name.1 ∉ install.store.memory.databases ∨ name.1 = sysName ∨
      fault ∉ [some (.error .removeDirectory), some (.crash .removeDirectory),
        some (.error .saveCatalog)]
  | .restart => True

instance (install : Install) (action : Action) : Decidable (Clean install action) := by
  rcases action with (_ | _) | _ <;> dsimp only [Clean] <;> infer_instance

structure Whole (install : Install) : Prop where
  root : HasRoot install.store.memory
  sync : InSync install.store
  once : install.store.memory.databases.Nodup
  listed : ∀ name, name ∈ install.store.memory.databases ↔ name ∈ install.directories
  system : sysName ∈ install.directories

theorem whole_initial (saltHex hashHex : String) : Whole (Install.initial saltHex hashHex) where
  root := ⟨_, mem_singleton.mpr rfl, rfl⟩
  sync := has_root_saved ⟨_, mem_singleton.mpr rfl, rfl⟩
  once := nodup_singleton _
  listed := fun _ => Iff.rfl
  system := mem_singleton.mpr rfl

variable {install : Install}

theorem whole_process (whole : Whole install) (opened : List String)
    (up : Bool) : Whole { install with opened := opened, up := up } :=
  ⟨whole.root, whole.sync, whole.once, whole.listed, whole.system⟩

variable {fault : Option Fault}

theorem open_db_continues {name : String}
    (present : name ∈ install.directories) (error : fault ≠ some (.error .openDatabase))
    (crash : fault ≠ some (.crash .openDatabase)) :
    ∃ opened, openDb name fault install = .continues { install with opened := opened } := by
  unfold openDb
  by_cases already : name ∈ install.opened
  · exact ⟨install.opened, if_pos already⟩
  · rw [if_neg already, if_neg (not_not.mpr present), atStage, if_neg error, if_neg crash]
    exact ⟨_, rfl⟩

theorem open_all_continues {databases : List String}
    (present : ∀ name ∈ databases, name ∈ install.directories) :
    ∃ opened, openAll databases install = .continues { install with opened := opened } := by
  induction databases generalizing install with
  | nil => exact ⟨install.opened, rfl⟩
  | cons name rest ih =>
    have later : ∀ other ∈ rest, other ∈ install.directories :=
      fun other member => present other (mem_cons_of_mem _ member)
    unfold openAll
    by_cases system : name = sysName
    · rw [if_pos system]
      exact ih later
    · obtain ⟨opened, continues⟩ := @open_db_continues install none name
        (present name mem_cons_self) nofun nofun
      rw [if_neg system, continues]
      exact ih later

theorem whole_restart (whole : Whole install) :
    ∃ opened, restart install = .continues { install with opened := opened, up := true } := by
  have loads : loadUnlocked install.store.file = some (.success, install.store.memory) := whole.sync
  have present : ∀ name ∈ install.store.memory.databases, name ∈ install.directories :=
    fun name => (whole.listed name).mp
  obtain ⟨opened, continues⟩ := @open_all_continues
    { install with opened := [sysName], up := true } install.store.memory.databases present
  refine ⟨opened, ?_⟩
  simp only [restart, handlerInit, initializeService, whole.system, if_true, loads]
  exact continues

theorem whole_starts (whole : Whole install) : StartsWhole install := by
  obtain ⟨opened, continues⟩ := whole_restart whole
  exact ⟨_, continues, fun name _ => whole.listed name⟩

def Progress.Keeps (install : Install) : Progress → Prop
  | .continues _ => False
  | .returns rc next => Whole next ∧ (rc ≠ .success → next = install)
  | .crashes next => Whole next

theorem keeps_of_catalog {before : Install} {call : Call}
    {catalog : Catalog} (saves : fault ≠ some (.error .saveCatalog))
    (saved : outcome install.store.memory call = .save catalog)
    (whole : Whole { install with store := ⟨catalog, catalogJson catalog⟩ }) :
    (changeCatalog call fault install).Keeps before := by
  have performed : perform install.store call (fault ≠ some (.error .saveCatalog))
      = (.success, ⟨catalog, catalogJson catalog⟩) := by
    simp [perform, saved, saves]
  unfold changeCatalog
  rw [performed]
  by_cases crash : fault = some (.crash .saveCatalog)
  · simp only [crash, if_true]
    exact whole
  · simp only [crash, if_false]
    exact ⟨whole, fun failed => absurd rfl failed⟩

variable {name : DatabaseName}

section

variable (whole : Whole install)
include whole

theorem create_database_keeps {ifNotExists : Bool}
    (met : Clean install (.command (.createDatabase ifNotExists name) fault)) :
    (execute (.createDatabase ifNotExists name) fault install).Keeps install := by
  unfold execute
  by_cases known : name.1 ∈ install.store.memory.databases
  · simp only [known, if_true]
    exact ⟨whole, fun _ => rfl⟩
  have absent : name.1 ∉ install.directories := fun present => known ((whole.listed _).mpr present)
  simp only [known, if_false, createDb, absent, atStage]
  rcases met.resolve_left known with refused | ⟨short, quiet⟩
  · simp only [refused, if_true]
    exact ⟨whole, fun _ => rfl⟩
  simp only [mem_cons, not_mem_nil, not_or] at quiet
  obtain ⟨no_crash, no_error, no_crash_open, saves, _⟩ := quiet
  by_cases refused : fault = some (.error .createDirectory)
  · simp only [refused, if_true]
    exact ⟨whole, fun _ => rfl⟩
  simp only [refused, no_crash, if_false, Progress.andThen]
  obtain ⟨opened, continues⟩ := @open_db_continues
    { install with directories := name.1 :: install.directories } fault name mem_cons_self
    no_error no_crash_open
  rw [continues]
  have valid : validIdentifier name = true := by simp [validIdentifier, name.2, short]
  have saved : outcome install.store.memory (.addDatabase name)
      = .save { install.store.memory with
          databases := install.store.memory.databases ++ [name.1] } := by
    simp [outcome, Catalog.addDatabase, valid, known]
  refine keeps_of_catalog saves saved ⟨whole.root, has_root_saved whole.root, ?_, ?_, ?_⟩
  · exact nodup_append'.mpr ⟨whole.once, nodup_singleton _, by simpa using known⟩
  · intro other
    simp [whole.listed other, or_comm]
  · exact mem_cons_of_mem _ whole.system

theorem remove_keeps {opened : List String} (known : name.1 ∈ install.store.memory.databases)
    (other_name : name.1 ≠ sysName)
    (quiet : fault ∉ [some (.error .removeDirectory), some (.crash .removeDirectory),
      some (.error .saveCatalog)]) :
    ((removeDirectory name fault { install with opened := opened }).andThen
      (changeCatalog (.removeDatabase name) fault)).Keeps install := by
  simp only [mem_cons, not_mem_nil, not_or] at quiet
  obtain ⟨no_error, no_crash, saves, _⟩ := quiet
  simp only [removeDirectory, atStage, no_error, no_crash, if_false, Progress.andThen]
  have saved : outcome install.store.memory (.removeDatabase name)
      = .save { install.store.memory with
          databases := install.store.memory.databases.erase name
          grants := install.store.memory.grants.filter fun grant => grant.database ≠ name } := by
    have not_sys : ¬ name.1 = "sys" := other_name
    simp [outcome, Catalog.removeDatabase, known, not_sys]
  refine keeps_of_catalog saves saved ⟨whole.root, has_root_saved whole.root, ?_, ?_, ?_⟩
  · exact whole.once.erase _
  · intro other
    rw [whole.once.mem_erase_iff, whole.listed other]
    simp [and_comm]
  · simpa [whole.system] using other_name.symm

theorem drop_database_keeps {ifExists : Bool}
    (met : Clean install (.command (.dropDatabase ifExists name) fault)) :
    (execute (.dropDatabase ifExists name) fault install).Keeps install := by
  unfold execute
  by_cases known : name.1 ∈ install.store.memory.databases
  · simp only [known, not_true_eq_false, if_false, dropDb]
    by_cases system : name.1 = sysName
    · simp only [system, if_true]
      exact ⟨whole, fun _ => rfl⟩
    have present := (whole.listed _).mp known
    have quiet := (met.resolve_left (not_not.mpr known)).resolve_left system
    simp only [system, present, not_true_eq_false, if_false, closeDb]
    by_cases opened : name.1 ∈ install.opened
    · simp only [opened, not_true_eq_false, if_false, atStage]
      by_cases error : fault = some (.error .closeDatabase)
      · simp only [error, if_true]
        exact ⟨whole, fun _ => rfl⟩
      by_cases crash : fault = some (.crash .closeDatabase)
      · simp only [crash, if_true]
        exact whole_process whole _ _
      simp only [error, crash, if_false]
      exact remove_keeps whole known system quiet
    · simp only [opened, not_false_eq_true, if_true]
      exact remove_keeps whole known system quiet
  · simp only [known, not_false_eq_true, if_true]
    exact ⟨whole, fun _ => rfl⟩

theorem clean_command_keeps {command : Command} (met : Clean install (.command command fault)) :
    (execute command fault install).Keeps install := by
  cases command with
  | createDatabase ifNotExists name => exact create_database_keeps whole met
  | dropDatabase ifExists name => exact drop_database_keeps whole met

end

theorem whole_step {next : Install} {action : Action} (whole : Whole install)
    (met : Clean install action) (taken : step install action = some next) : Whole next := by
  cases action with
  | command command fault =>
    have keeps := clean_command_keeps whole met
    obtain ⟨_, ended⟩ := ite_none_right_eq_some.mp taken
    cases progress : execute command fault install with
    | continues last =>
      rw [progress] at keeps
      exact keeps.elim
    | returns rc last =>
      rw [progress] at keeps ended
      cases ended
      exact keeps.1
    | crashes last =>
      rw [progress] at keeps ended
      cases ended
      exact whole_process keeps _ _
  | restart =>
    obtain ⟨opened, continues⟩ := whole_restart whole
    simp only [step, continues] at taken
    cases taken
    exact whole_process whole _ _

theorem clean_commands_all_or_nothing {saltHex hashHex : String} {install : Install}
    (ran : Reaches step Clean (Install.initial saltHex hashHex) install) :
    StartsWhole install ∧ ∀ command fault, Clean install (.command command fault) →
      Repeatable install command fault := by
  have whole : Whole install :=
    reaches_invariant Whole (fun _ _ _ => whole_step) (whole_initial saltHex hashHex) ran
  refine ⟨whole_starts whole, ?_⟩
  intro command fault met rc next ended failed again
  have keeps := clean_command_keeps whole met
  rw [ended] at keeps
  rw [keeps.2 failed]

theorem shop_is_identifier : isIdentifier "shop" = true := by decide +kernel

def shopName : DatabaseName := ⟨"shop", shop_is_identifier⟩

def stoppedDrop : List Action :=
  [.command (.createDatabase false shopName) none,
    .command (.dropDatabase false shopName) (some (.crash .closeDatabase)), .restart]

theorem stopped_drop_runs :
    (run step Clean (Install.initial "" "") stoppedDrop).isSome = true := by
  decide +kernel

theorem clean_commands_all_or_nothing_after_stop :
    ∃ install, Reaches step Clean (Install.initial "" "") install ∧
      install.directories = ["shop", "sys"] ∧ StartsWhole install ∧
        ∀ command fault, Clean install (.command command fault) →
          Repeatable install command fault :=
  ⟨_, run_get_reaches stopped_drop_runs, by decide +kernel,
    clean_commands_all_or_nothing (run_get_reaches stopped_drop_runs)⟩

def longName : DatabaseName :=
  ⟨"aaaaaaaaaaaaaaaaaaaaaaaaaaaaaaaaaaaaaaaaaaaaaaaaaaaaaaaaaaaaaaaaa", by decide +kernel⟩

def AnyCommand (_ : Install) (_ : Action) : Prop := True

def createLong : Command := .createDatabase false longName

def longInstall : Install :=
  { Install.initial "" "" with
    directories := [longName.1, sysName]
    opened := [longName.1, sysName] }

theorem create_long_refused :
    execute createLong none (Install.initial "" "") =
      .returns (.rc .invalidArgument) longInstall := by
  have refused : validIdentifier longName = false := by decide +kernel
  have unlisted : longName.1 ∉ (Install.initial "" "").store.memory.databases := by decide +kernel
  have absent : longName.1 ∉ (Install.initial "" "").directories := by decide +kernel
  have closed : longName.1 ∉ (Install.initial "" "").opened := by decide +kernel
  simp only [execute, createLong, unlisted, createDb, absent, atStage, openDb, closed,
    Progress.andThen, changeCatalog, perform, outcome, Catalog.addDatabase, refused, if_false,
    if_true, Bool.not_false, reduceCtorEq, mem_cons, true_or, not_true_eq_false]
  rfl

theorem create_long_again :
    execute createLong none longInstall = .returns (.rc .schemaDbExist) longInstall := by
  have unlisted : longName.1 ∉ longInstall.store.memory.databases := by decide +kernel
  have present : longName.1 ∈ longInstall.directories := mem_cons_self
  simp only [execute, createLong, unlisted, createDb, present, if_false, if_true,
    Progress.andThen]

/-- The directory stays, is not listed, and makes the same command fail in another way. -/
theorem long_name_leaves_directory :
    ¬ ∀ saltHex hashHex install,
      Reaches step AnyCommand (Install.initial saltHex hashHex) install →
        StartsWhole install ∧ ∀ command fault, Repeatable install command fault := by
  intro all_or_nothing
  obtain ⟨_, repeatable⟩ := all_or_nothing "" "" _ .refl
  have same := repeatable createLong none _ _ create_long_refused (by decide) none
  rw [create_long_again, create_long_refused] at same
  cases same

end CsuDbms.DatabaseCommands
