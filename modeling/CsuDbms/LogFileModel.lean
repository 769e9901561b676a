import CsuDbms.LittleEndian
import CsuDbms.TransitionSystem

/-!
# The log files

`LogEntryBuffer`, `LogFileWriter`, `LogFileReader` and `LogFileManager` down to the bytes of a file.
The thread of the handler takes the first entry of the buffer and appends it to the last file; a
write that fails may have appended some of the bytes, and the entry goes back to the front. Reading
starts at the file that may hold the first number asked for.

A log file can always be opened and read, and appending never waits for memory. `written` records
the entries reported as flushed, and `appended` all that were put into the buffer.
-/

namespace CsuDbms.LogFileModel

open LittleEndian

inductive RC where
  | success
  | invalidArgument
  | logFileFull
  | ioerrRead
  | ioerrWrite
  deriving DecidableEq, Repr

inductive LogModule where
  | bufferPool
  | bplusTree
  | recordManager
  | transaction
  deriving DecidableEq, Repr

def LogModule.index : LogModule → Int
  | .bufferPool => 0
  | .bplusTree => 1
  | .recordManager => 2
  | .transaction => 3

structure LogHeader where
  lsn : Int
  size : Int
  moduleId : Int
  deriving DecidableEq, Repr

namespace LogHeader

def SIZE : Nat := 16

def bytes (header : LogHeader) : List Byte :=
  encodeInt 8 header.lsn ++ encodeInt 4 header.size ++ encodeInt 4 header.moduleId

def ofBytes (bytes : List Byte) : LogHeader where
  lsn := decodeInt (bytes.take 8)
  size := decodeInt ((bytes.drop 8).take 4)
  moduleId := decodeInt ((bytes.drop 12).take 4)

end LogHeader

/-- An entry as it is appended, or as it is read: then the module is what the number says. -/
structure LogEntry where
  lsn : Int
  moduleId : Int
  payload : List Byte
  deriving DecidableEq, Repr

namespace LogEntry

def maxPayloadSize : Int := 4 * 1024 * 1024 - LogHeader.SIZE

def size (entry : LogEntry) : Int := toSigned 4 entry.payload.length

def header (entry : LogEntry) : LogHeader := ⟨entry.lsn, entry.size, entry.moduleId⟩

/-- What `LogFileWriter::write` sends to the file; a negative size writes no payload. -/
def bytes (entry : LogEntry) : List Byte :=
  entry.header.bytes ++ entry.payload.take entry.size.toNat

end LogEntry

/-- `readn`: none at the end of the file, also if some bytes are left. -/
def readn (count : Nat) (bytes : List Byte) : Option (List Byte × List Byte) :=
  if bytes.length < count then none else some (bytes.take count, bytes.drop count)

def badSize (header : LogHeader) : Prop := header.size < 0 ∨ LogEntry.maxPayloadSize < header.size

instance (header : LogHeader) : Decidable (badSize header) :=
  inferInstanceAs (Decidable (_ ∨ _))

/-- The loop of `skip_to`. Seeking past the end leaves nothing to read. -/
def skipTo (startLsn : Int) : Nat → List Byte → Except RC (List Byte)
  | 0, bytes => .ok bytes
  | fuel + 1, bytes =>
    match readn LogHeader.SIZE bytes with
    | none => .ok []
    | some (front, rest) =>
      let header := LogHeader.ofBytes front
      if startLsn ≤ header.lsn then .ok bytes
      else if badSize header then .error .ioerrRead
      else skipTo startLsn fuel (rest.drop header.size.toNat)

/-- The loop of `LogFileReader::iterate`: what the callback gets, and the code at the end. -/
def readEntries : Nat → List Byte → List LogEntry × RC
  | 0, _ => ([], .success)
  | fuel + 1, bytes =>
    match readn LogHeader.SIZE bytes with
    | none => ([], .success)
    | some (front, rest) =>
      let header := LogHeader.ofBytes front
      if badSize header then ([], .ioerrRead)
      else
        match readn header.size.toNat rest with
        | none => ([], .ioerrRead)
        | some (payload, rest) =>
          let (entries, rc) := readEntries fuel rest
          (⟨header.lsn, header.moduleId, payload⟩ :: entries, rc)

/-- Each round reads a header, so the length of the file bounds the rounds. -/
def iterateFile (startLsn : Int) (bytes : List Byte) : List LogEntry × RC :=
  match skipTo startLsn (bytes.length + 1) bytes with
  | .error rc => ([], rc)
  | .ok rest => readEntries (rest.length + 1) rest

structure LogFile where
  firstLsn : Int
  bytes : List Byte
  deriving DecidableEq, Repr

def maxEntryNumberPerFile : Int := 1000

def listFiles (files : List LogFile) (startLsn : Int) : List LogFile :=
  files.filter fun file => startLsn ≤ file.firstLsn + maxEntryNumberPerFile - 1

def iterateFiles (startLsn : Int) : List LogFile → List LogEntry × RC
  | [] => ([], .success)
  | file :: rest =>
    let (entries, rc) := iterateFile startLsn file.bytes
    if rc = .success then
      let (later, rc) := iterateFiles startLsn rest
      (entries ++ later, rc)
    else (entries, rc)

def iterate (files : List LogFile) (startLsn : Int) : List LogEntry × RC :=
  iterateFiles startLsn (listFiles files startLsn)

/-- The entries of the map are in the order of their keys, so this is the last one. -/
def nextFirstLsn (files : List LogFile) : Int :=
  match files.getLast? with
  | none => 0
  | some file => file.firstLsn + maxEntryNumberPerFile

def appendLast (bytes : List Byte) : List LogFile → List LogFile
  | [] => []
  | [file] => [{ file with bytes := file.bytes ++ bytes }]
  | file :: rest => file :: appendLast bytes rest

/-- `LogFileWriter`; its numbers are of type `int`. -/
structure Writer where
  opened : Bool
  lastLsn : Int
  endLsn : Int
  deriving DecidableEq, Repr

/-- `full` says that the last flush ended with `LOG_FILE_FULL`. -/
structure Log where
  files : List LogFile
  buffer : List LogEntry
  currentLsn : Int
  flushedLsn : Int
  writer : Writer
  full : Bool
  checkPointLsn : Int
  written : List LogEntry
  appended : List LogEntry
  deriving DecidableEq, Repr

def Writer.closed : Writer := ⟨false, 0, 0⟩

def Log.create : Log := ⟨[], [], 0, 0, .closed, false, 0, [], []⟩

/-- A payload that is too large is refused, going by its size as an `int32_t`. -/
def append (log : Log) (module : LogModule) (payload : List Byte) : RC × Log :=
  let entry : LogEntry := ⟨log.currentLsn + 1, module.index, payload⟩
  if LogEntry.maxPayloadSize < entry.size then (.invalidArgument, log)
  else
    (.success,
      { log with
        currentLsn := entry.lsn
        buffer := log.buffer ++ [entry]
        appended := log.appended ++ [entry] })

def Log.open (log : Log) (files : List LogFile) (firstLsn : Int) : Log :=
  { log with
    files := files
    full := false
    writer :=
      { log.writer with
        opened := true
        endLsn := toSigned 4 (firstLsn + maxEntryNumberPerFile - 1) } }

def nextFile (log : Log) : Log :=
  let firstLsn := nextFirstLsn log.files
  log.open (log.files ++ [⟨firstLsn, []⟩]) firstLsn

def lastFile (log : Log) : Log :=
  match log.files.getLast? with
  | none => nextFile log
  | some file => log.open log.files file.firstLsn

/-- One round of `LogEntryBuffer::flush`. A write that fails has appended `fault` bytes. -/
def flushEntry (log : Log) (fault : Option Nat) : Option Log :=
  match log.buffer with
  | [] => none
  | entry :: rest =>
    if log.writer.endLsn < entry.lsn then some { log with full := true }
    else if entry.lsn ≤ log.writer.lastLsn then some log
    else
      match fault with
      | some count =>
        if count < entry.bytes.length then
          some { log with files := appendLast (entry.bytes.take count) log.files }
        else none
      | none =>
        some
          { log with
            files := appendLast entry.bytes log.files
            buffer := rest
            flushedLsn := entry.lsn
            writer := { log.writer with lastLsn := toSigned 4 entry.lsn }
            written := log.written ++ [entry] }

def maxLsn (entries : List LogEntry) : Int :=
  entries.foldl (fun largest entry => if largest < entry.lsn then entry.lsn else largest) 0

/-- `DiskLogHandler::replay` in a new process; what was in the buffer is lost. -/
def restart (log : Log) : Option Log :=
  match iterate log.files log.checkPointLsn with
  | (entries, .success) =>
    some
      { log with
        buffer := []
        currentLsn := maxLsn entries
        flushedLsn := maxLsn entries
        writer := .closed
        full := false }
  | (_, _) => none

inductive Action where
  | append (module : LogModule) (payload : List Byte)
  | openFile
  | flushEntry (fault : Option Nat)
  | sync
  | restart
  deriving DecidableEq, Repr

/-- `openFile` and `flushEntry` are the steps of `thread_func`; `sync` is the part of `Db::sync`
that waits for the log and takes its number as the checkpoint. -/
def step (log : Log) : Action → Option Log
  | .append module payload => some (append log module payload).2
  | .openFile =>
    if log.full then some (nextFile log)
    else if log.writer.opened then none
    else some (lastFile log)
  | .flushEntry fault => if log.writer.opened ∧ !log.full then flushEntry log fault else none
  | .sync =>
    if log.currentLsn ≤ log.flushedLsn then some { log with checkPointLsn := log.currentLsn }
    else none
  | .restart => restart log

/-- Iterating from any number gives the entries reported as flushed from there on, in order and
as they were appended, and all their numbers have been given out. -/
structure Integral (log : Log) : Prop where
  iterates : ∀ startLsn, iterate log.files startLsn =
    (log.written.filter fun entry => startLsn ≤ entry.lsn, .success)
  increasing : log.written.Pairwise fun earlier later => earlier.lsn < later.lsn
  appended : ∀ entry ∈ log.written, entry ∈ log.appended
  assigned : ∀ entry ∈ log.written, entry.lsn ≤ log.currentLsn

/-- A write that fails has written nothing, and the size of a payload is an `int32_t`. -/
def CleanWrites (_ : Log) : Action → Prop
  | .append _ payload => payload.length < 2 ^ 31
  | .flushEntry (some count) => count = 0
  | _ => True

instance (log : Log) (action : Action) : Decidable (CleanWrites log action) := by
  unfold CleanWrites
  split <;> infer_instance

end CsuDbms.LogFileModel
