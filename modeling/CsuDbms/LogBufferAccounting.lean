import CsuDbms.LogFileModel

/-!
# The bytes counted by the log buffer

`LogEntryBuffer` keeps a count of the bytes it holds, and `append` waits for it. The count is
raised after the entry has been moved into the buffer, so by the size of what is left of the
entry, and it is lowered by the full size when the entry is taken out. An entry that is put back
after a failed write is not counted again.
-/

namespace CsuDbms.LogBufferModel

open TransitionSystem LittleEndian LogFileModel List Option

/-- `static_cast<int32_t>(data.size())` -/
def payloadSize (data : List Byte) : Int := toSigned 4 data.length

structure Entry where
  header : LogHeader
  data : List Byte
  deriving DecidableEq, Repr

namespace Entry

def totalSize (entry : Entry) : Int := LogHeader.SIZE + entry.header.size

def movedFrom (entry : Entry) : Entry := ⟨{ entry.header with lsn := 0, size := 0 }, []⟩

def make (lsn : Int) (module : LogModule) (data : List Byte) : Entry :=
  ⟨⟨lsn, payloadSize data, module.index⟩, data⟩

end Entry

structure LogEntryBuffer where
  entries : List Entry
  bytes : Int
  currentLsn : Int
  flushedLsn : Int
  maxBytes : Int
  deriving DecidableEq, Repr

namespace LogEntryBuffer

def create (lsn maxBytes : Int) : LogEntryBuffer :=
  ⟨[], 0, lsn, lsn, if 0 < maxBytes then maxBytes else 4 * 1024 * 1024⟩

/-- `append` behind its wait; `init` refuses a payload that is too large. -/
def append (buffer : LogEntryBuffer) (module : LogModule) (data : List Byte) :
    RC × LogEntryBuffer :=
  if LogEntry.maxPayloadSize < payloadSize data then (.invalidArgument, buffer)
  else
    let entry := Entry.make (buffer.currentLsn + 1) module data
    (.success,
      { buffer with
        currentLsn := buffer.currentLsn + 1
        entries := buffer.entries ++ [entry]
        bytes := buffer.bytes + entry.movedFrom.totalSize })

def flush (write : Nat → RC) : List Entry → Nat → LogEntryBuffer → RC × Nat × LogEntryBuffer
  | [], count, buffer => (.success, count, { buffer with entries := [] })
  | entry :: rest, count, buffer =>
    let taken := { buffer with entries := rest, bytes := buffer.bytes - entry.totalSize }
    match write count with
    | .success => flush write rest (count + 1) { taken with flushedLsn := entry.header.lsn }
    | rc => (rc, count, { taken with entries := entry :: rest })

def total (buffer : LogEntryBuffer) : Int := (buffer.entries.map Entry.totalSize).sum

end LogEntryBuffer

open LogEntryBuffer

inductive Action where
  | append (module : LogModule) (data : List Byte)
  | flush (write : Nat → RC)

def step (buffer : LogEntryBuffer) : Action → Option LogEntryBuffer
  | .append module data =>
    if buffer.maxBytes ≤ buffer.bytes then none else some (buffer.append module data).2
  | .flush write => some (flush write buffer.entries 0 buffer).2.2

/-- The entry has no payload or is refused, and every write succeeds. -/
def Counted (buffer : LogEntryBuffer) : Action → Prop
  | .append _ data => payloadSize data = 0 ∨ LogEntry.maxPayloadSize < payloadSize data
  | .flush write => ∀ index < buffer.entries.length, write index = .success

instance (buffer : LogEntryBuffer) (action : Action) : Decidable (Counted buffer action) := by
  cases action <;> dsimp only [Counted] <;> infer_instance

structure Accounted (buffer : LogEntryBuffer) : Prop where
  bytes : buffer.bytes = buffer.total
  headers : ∀ entry ∈ buffer.entries, entry.header.size = 0

section Steps

variable {buffer next : LogEntryBuffer}

theorem append_refused {module : LogModule} {data : List Byte}
    (refused : LogEntry.maxPayloadSize < payloadSize data) :
    (buffer.append module data).2 = buffer := by
  rw [LogEntryBuffer.append, if_pos refused]

theorem append_accepted {module : LogModule} {data : List Byte}
    (accepted : ¬LogEntry.maxPayloadSize < payloadSize data) :
    (buffer.append module data).2 =
      { buffer with
        currentLsn := buffer.currentLsn + 1
        entries := buffer.entries ++ [Entry.make (buffer.currentLsn + 1) module data]
        bytes := buffer.bytes + LogHeader.SIZE } := by
  rw [LogEntryBuffer.append, if_neg accepted]
  simp [Entry.movedFrom, Entry.totalSize]

theorem flush_written {write : Nat → RC} {entry : Entry} {rest : List Entry} {count : Nat}
    (written : write count = .success) :
    flush write (entry :: rest) count buffer =
      flush write rest (count + 1)
        { buffer with
          entries := rest
          bytes := buffer.bytes - entry.totalSize
          flushedLsn := entry.header.lsn } := by
  rw [flush, written]

theorem flush_failed {write : Nat → RC} {entry : Entry} {rest : List Entry} {count : Nat}
    (failed : write count ≠ .success) :
    (flush write (entry :: rest) count buffer).2.2 =
      { buffer with entries := entry :: rest, bytes := buffer.bytes - entry.totalSize } := by
  rw [flush]
  split
  · exact absurd ‹_› failed
  · rfl

theorem bytes_flush (write : Nat → RC) (entries : List Entry) (count : Nat)
    (whole : buffer.bytes = (entries.map Entry.totalSize).sum)
    (headers : ∀ entry ∈ entries, entry.header.size = 0) :
    ((flush write entries count buffer).2.2.bytes = (flush write entries count buffer).2.2.total ↔
      ∀ index < entries.length, write (index + count) = .success) := by
  induction entries generalizing count buffer with
  | nil => simpa [flush, total] using whole
  | cons entry rest ih =>
    have size : entry.totalSize = 16 := by
      rw [Entry.totalSize, headers entry mem_cons_self]
      rfl
    rw [map_cons, sum_cons] at whole
    rw [length_cons, Nat.forall_lt_succ_left, Nat.zero_add]
    by_cases written : write count = .success
    · rw [flush_written written, ih (count + 1) (by simp only; omega)
        fun other member => headers other (mem_cons_of_mem _ member)]
      simp only [written, true_and, Nat.add_assoc, Nat.add_comm 1]
    · rw [flush_failed written]
      simp only [total, map_cons, sum_cons, written, false_and, iff_false]
      omega

theorem entries_flush (write : Nat → RC) (entries : List Entry) (count : Nat) :
    ∀ entry ∈ (flush write entries count buffer).2.2.entries, entry ∈ entries := by
  induction entries generalizing count buffer with
  | nil => exact fun entry member => member
  | cons first rest ih =>
    intro entry member
    by_cases written : write count = .success
    · rw [flush_written written] at member
      exact mem_cons_of_mem _ (ih (count + 1) entry member)
    · rw [flush_failed written] at member
      exact member

theorem bytes_step {action : Action} (accounted : Accounted buffer)
    (taken : step buffer action = some next) : next.bytes = next.total ↔ Counted buffer action := by
  have whole := accounted.bytes
  cases action with
  | append module data =>
    rw [step, ite_none_left_eq_some] at taken
    obtain ⟨-, result⟩ := taken
    rw [← some.inj result, Counted]
    by_cases refused : LogEntry.maxPayloadSize < payloadSize data
    · rw [append_refused refused]
      exact iff_of_true whole (.inr refused)
    · rw [append_accepted refused, or_iff_left refused]
      rw [total] at whole
      simp only [total, map_append, sum_append, map_singleton,
        sum_singleton, Entry.totalSize, Entry.make]
      omega
  | flush write =>
    rw [← some.inj taken]
    exact bytes_flush write buffer.entries 0 whole accounted.headers

theorem accounted_step {action : Action} (accounted : Accounted buffer)
    (counted : Counted buffer action) (taken : step buffer action = some next) :
    Accounted next := by
  refine ⟨(bytes_step accounted taken).mpr counted, fun entry member => ?_⟩
  cases action with
  | append module data =>
    rw [step, ite_none_left_eq_some] at taken
    obtain ⟨-, result⟩ := taken
    rw [← some.inj result] at member
    by_cases refused : LogEntry.maxPayloadSize < payloadSize data
    · rw [append_refused refused] at member
      exact accounted.headers entry member
    · rw [append_accepted refused] at member
      rcases mem_append.mp member with old | new
      · exact accounted.headers entry old
      · rw [Counted, or_iff_left refused] at counted
        rw [mem_singleton.mp new, Entry.make, counted]
  | flush write =>
    rw [← some.inj taken] at member
    exact accounted.headers entry (entries_flush write buffer.entries 0 entry member)

/-- In a run that meets the condition the count is the sum of the sizes, and `append` waits
exactly while that sum is at least the limit. The first step that does not meet it makes the
count wrong. -/
theorem log_buffer_counts {lsn maxBytes : Int}
    (ran : Reaches step Counted (create lsn maxBytes) buffer) :
    buffer.bytes = buffer.total ∧
      (∀ module data, step buffer (.append module data) = none ↔ buffer.maxBytes ≤ buffer.total) ∧
      ∀ action next, step buffer action = some next →
        (next.bytes = next.total ↔ Counted buffer action) := by
  have accounted : Accounted buffer := by
    refine reaches_invariant Accounted (fun _ _ _ => accounted_step) ⟨rfl, ?_⟩ ran
    exact fun entry none => by cases none
  refine ⟨accounted.bytes, fun module data => ?_, fun action next => bytes_step accounted⟩
  rw [← accounted.bytes, step]
  simp

end Steps

def headersOnly : List Action :=
  [.append .transaction [], .flush fun _ => .success, .append .bplusTree [],
    .append .transaction []]

theorem headers_only_run :
    (run step Counted (create 0 100) headersOnly).isSome = true := by
  decide +kernel

theorem log_buffer_counts_headers :
    ∃ buffer, Reaches step Counted (create 0 100) buffer ∧ buffer.total = 32 ∧
      buffer.bytes = buffer.total :=
  ⟨_, run_get_reaches headers_only_run, by decide +kernel,
    (log_buffer_counts (run_get_reaches headers_only_run)).1⟩

/-- After one entry with a payload of three bytes the buffer holds 19 bytes and counts 16; when
the entry has been written, the count is negative. -/
theorem log_buffer_counts_less :
    (step (create 0 100) (.append .transaction [1, 2, 3])).map
        (fun buffer => (buffer.total, buffer.bytes)) = some (19, 16) ∧
      ((step (create 0 100) (.append .transaction [1, 2, 3])).bind fun buffer =>
        (step buffer (.flush fun _ => .success)).map fun next => (next.total, next.bytes)) =
          some (0, -3) := by
  decide +kernel

end CsuDbms.LogBufferModel
