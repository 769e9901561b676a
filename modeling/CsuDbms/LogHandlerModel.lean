import Mathlib

/-!
# The log handler

Pure transcription of `DiskLogHandler` and `LogEntryBuffer` as far as sequence
numbers go: an appended entry waits in the buffer until the handler's thread has
written it to the log file. `fileLsn` is the last sequence number in the files,
which outlives the handler; `flushedLsn` is the handler's own counter for it.
-/

namespace CsuDbms.LogHandlerModel

structure LogHandler where
  /-- the thread exists -/
  started : Bool
  running : Bool
  currentLsn : Int
  flushedLsn : Int
  /-- the entries in the buffer, by number -/
  entries : List Int
  fileLsn : Int

namespace LogHandler

def create (fileLsn : Int) : LogHandler where
  started := false
  running := false
  currentLsn := 0
  flushedLsn := 0
  entries := []
  fileLsn := fileLsn

/-- `replay` ends with `entry_buffer_.init(max_lsn)`. -/
def replay (log : LogHandler) : LogHandler :=
  { log with currentLsn := log.fileLsn, flushedLsn := log.fileLsn }

def start (log : LogHandler) : LogHandler :=
  if log.started then log else { log with started := true, running := true }

def stop (log : LogHandler) : LogHandler :=
  if log.started then { log with running := false } else log

def awaitTermination (log : LogHandler) : Option LogHandler :=
  if log.started ∧ log.running = false ∧ log.entries = [] then
    some { log with started := false }
  else none

def append (log : LogHandler) : LogHandler :=
  { log with
      currentLsn := log.currentLsn + 1
      entries := log.entries ++ [log.currentLsn + 1] }

/-- The thread writes the first entry of the buffer. It drains the buffer also
after `stop`. -/
def flushEntry (log : LogHandler) : Option LogHandler :=
  if log.started then
    match log.entries with
    | [] => none
    | lsn :: rest =>
      some { log with entries := rest, flushedLsn := lsn, fileLsn := max log.fileLsn lsn }
  else none

/-- `wait_lsn`: `none` as long as it goes on waiting, then whether it succeeded. -/
def waitLsn (log : LogHandler) (lsn : Int) : Option Bool :=
  if log.running ∧ log.flushedLsn < lsn then none else some (lsn ≤ log.flushedLsn)

theorem le_flushedLsn_of_wait {log : LogHandler} {lsn : Int} {result : Bool}
    (waited : log.waitLsn lsn = some result) (running : log.running = true) :
    lsn ≤ log.flushedLsn := by
  unfold waitLsn at waited
  split at waited
  · cases waited
  · rename_i ended
    exact Int.not_lt.mp fun short => ended ⟨running, short⟩

end LogHandler

end CsuDbms.LogHandlerModel
