import CsuDbms.LogFileModel

/-!
# What is read from the log

Entries are read back as they were written if a file consists of whole entries.
The numbers in a file stay below the bound that its name gives, also where the
bound wraps around as an `int`, so no file that is left out holds an entry that
is asked for. A write that fails in the middle of an entry breaks this: the
retry appends the entry once more behind the bytes that are already there.
-/

namespace CsuDbms.LogFileModel

open TransitionSystem LittleEndian List Option LogEntry

structure Fits (entry : LogEntry) : Prop where
  lsnLower : 0 < entry.lsn
  lsnUpper : entry.lsn < 2 ^ 31
  moduleLower : 0 ≤ entry.moduleId
  moduleUpper : entry.moduleId < 4
  payload : (entry.payload.length : Int) ≤ maxPayloadSize

variable {entry : LogEntry} {entries : List LogEntry} {startLsn : Int}

theorem size_of_short (short : entry.payload.length < 2 ^ 31) :
    entry.size = entry.payload.length := by
  apply to_signed_of_range
  · omega
  · omega

theorem fits_size (fits : Fits entry) : entry.size = entry.payload.length := by
  have short := fits.payload
  simp only [maxPayloadSize, LogHeader.SIZE] at short
  exact size_of_short (by omega)

theorem fits_bytes (fits : Fits entry) : entry.bytes = entry.header.bytes ++ entry.payload := by
  rw [bytes, fits_size fits, Int.toNat_natCast, take_length]

theorem length_header_bytes (header : LogHeader) : header.bytes.length = LogHeader.SIZE := by
  simp [LogHeader.bytes, LogHeader.SIZE]

theorem header_of_bytes (fits : Fits entry) :
    LogHeader.ofBytes entry.header.bytes = entry.header := by
  obtain ⟨lsn_lower, lsn_upper, module_lower, module_upper, _⟩ := fits
  have lsn : decodeInt (encodeInt 8 entry.lsn) = entry.lsn := by
    rw [decode_encode_int]
    exact to_signed_of_range (by omega) (by omega)
  have size : decodeInt (encodeInt 4 entry.size) = entry.size := by
    rw [decode_encode_int, size, to_signed_idem]
  have moduleId : decodeInt (encodeInt 4 entry.moduleId) = entry.moduleId := by
    rw [decode_encode_int]
    exact to_signed_of_range (by omega) (by omega)
  have first : (encodeInt 8 entry.lsn).length = 8 := length_encode_int 8 entry.lsn
  have second : (encodeInt 4 entry.size).length = 4 := length_encode_int 4 entry.size
  have third : (encodeInt 4 entry.moduleId).length = 4 := length_encode_int 4 entry.moduleId
  have whole : entry.header.bytes =
      encodeInt 8 entry.lsn ++ encodeInt 4 entry.size ++ encodeInt 4 entry.moduleId := by
    simp only [LogHeader.bytes, header]
  have front : entry.header.bytes.take 8 = encodeInt 8 entry.lsn := by
    rw [whole, append_assoc, take_left' first]
  have middle : (entry.header.bytes.drop 8).take 4 = encodeInt 4 entry.size := by
    rw [whole, append_assoc, drop_left' first, take_left' second]
  have back : (entry.header.bytes.drop 12).take 4 = encodeInt 4 entry.moduleId := by
    have twelve : (encodeInt 8 entry.lsn ++ encodeInt 4 entry.size).length = 12 := by
      rw [length_append, first, second]
    rw [whole, drop_left' twelve, take_of_length_le third.le]
  rw [LogHeader.ofBytes, front, middle, back, lsn, size, moduleId, header]

theorem readn_append {count : Nat} {front rest : List Byte} (size : front.length = count) :
    readn count (front ++ rest) = some (front, rest) := by
  have enough : ¬ (front ++ rest).length < count := by simp [size]
  rw [readn, if_neg enough, take_left' size, drop_left' size]

theorem not_bad_size (fits : Fits entry) : ¬ badSize entry.header := by
  have short := fits.payload
  simp only [badSize, header, fits_size fits]
  omega

def fileBytes (entries : List LogEntry) : List Byte := entries.flatMap bytes

abbrev Increasing (entries : List LogEntry) : Prop :=
  entries.Pairwise fun earlier later => earlier.lsn < later.lsn

theorem length_le_file_bytes (fits : ∀ entry ∈ entries, Fits entry) :
    entries.length ≤ (fileBytes entries).length := by
  induction entries with
  | nil => exact Nat.zero_le _
  | cons first rest ih =>
    have rest_bound := ih fun entry member => fits entry (mem_cons_of_mem _ member)
    have first_size : (first.bytes).length = LogHeader.SIZE + first.payload.length := by
      rw [fits_bytes (fits first mem_cons_self), length_append, length_header_bytes]
    simp only [fileBytes, flatMap_cons, length_cons, length_append,
      first_size, LogHeader.SIZE] at rest_bound ⊢
    omega

theorem file_bytes_cons (fits : Fits entry) :
    fileBytes (entry :: entries) = entry.header.bytes ++ (entry.payload ++ fileBytes entries) := by
  rw [fileBytes, flatMap_cons, fits_bytes fits, append_assoc]
  rfl

theorem read_entries_append (fits : ∀ entry ∈ entries, Fits entry) (fuel : Nat)
    (tail : List Byte) :
    readEntries (fuel + entries.length) (fileBytes entries ++ tail) =
      (entries ++ (readEntries fuel tail).1, (readEntries fuel tail).2) := by
  induction entries with
  | nil => rfl
  | cons first rest ih =>
    have first_fits := fits first mem_cons_self
    have later := ih fun entry member => fits entry (mem_cons_of_mem _ member)
    have size : first.header.size.toNat = first.payload.length := by
      rw [header, fits_size first_fits, Int.toNat_natCast]
    rw [file_bytes_cons first_fits, length_cons, ← Nat.add_assoc, readEntries,
      append_assoc, append_assoc, readn_append (length_header_bytes _)]
    simp only [header_of_bytes first_fits, not_bad_size first_fits, if_false,
      readn_append size.symm, later]
    rfl

variable {fuel : Nat}

theorem read_entries_file (fits : ∀ entry ∈ entries, Fits entry) (enough : entries.length < fuel) :
    readEntries fuel (fileBytes entries) =
    (entries, .success) := by
  obtain ⟨more, rfl⟩ := Nat.exists_eq_add_of_lt enough
  have read := read_entries_append fits (more + 1) []
  rw [append_nil] at read
  rw [show entries.length + more + 1 = more + 1 + entries.length by omega, read]
  exact Prod.ext (append_nil _) rfl

theorem filter_from (sorted : Increasing (entry :: entries)) (from_here : startLsn ≤ entry.lsn) :
    (entry :: entries).filter (fun later => startLsn ≤ later.lsn) = entry :: entries := by
  rw [filter_eq_self]
  intro later member
  rcases mem_cons.mp member with rfl | after
  · exact decide_eq_true from_here
  · exact decide_eq_true (from_here.trans (rel_of_pairwise_cons sorted after).le)

theorem skip_to_append {tail : List Byte} (fits : ∀ entry ∈ entries, Fits entry)
    (sorted : Increasing entries) (enough : entries.length < fuel)
    (stops : ∀ fuel, 0 < fuel → skipTo startLsn fuel tail = .ok tail) :
    skipTo startLsn fuel (fileBytes entries ++ tail) =
      .ok (fileBytes (entries.filter fun entry => startLsn ≤ entry.lsn) ++ tail) := by
  induction entries generalizing fuel with
  | nil => exact stops fuel enough
  | cons first rest ih =>
    cases fuel with
    | zero => cases enough
    | succ fuel =>
      have first_fits := fits first mem_cons_self
      have later := ih (fun entry member => fits entry (mem_cons_of_mem _ member))
        sorted.of_cons (Nat.lt_of_succ_lt_succ enough)
      have size : first.header.size.toNat = first.payload.length := by
        rw [header, fits_size first_fits, Int.toNat_natCast]
      have cons_bytes : fileBytes (first :: rest) ++ tail =
          first.header.bytes ++ (first.payload ++ (fileBytes rest ++ tail)) := by
        rw [file_bytes_cons first_fits, append_assoc, append_assoc]
      by_cases from_here : startLsn ≤ first.lsn
      · rw [filter_from sorted from_here, cons_bytes, skipTo,
          readn_append (length_header_bytes _)]
        simp only [header_of_bytes first_fits]
        exact if_pos from_here
      · have dropped : (first :: rest).filter (fun entry => startLsn ≤ entry.lsn) =
            rest.filter fun entry => startLsn ≤ entry.lsn := by
          simp [from_here]
        have below : ¬ startLsn ≤ first.header.lsn := from_here
        rw [dropped, cons_bytes, skipTo, readn_append (length_header_bytes _)]
        simp only [header_of_bytes first_fits, below, not_bad_size first_fits, if_false, size,
          drop_left]
        exact later

theorem skip_to_file (fits : ∀ entry ∈ entries, Fits entry) (sorted : Increasing entries)
    (enough : entries.length < fuel) :
    skipTo startLsn fuel (fileBytes entries) =
      .ok (fileBytes (entries.filter fun entry => startLsn ≤ entry.lsn)) := by
  have skipped := @skip_to_append _ startLsn _ [] fits sorted enough fun fuel some => by
    cases fuel with
    | zero => cases some
    | succ fuel => rfl
  rwa [append_nil, append_nil] at skipped

theorem iterate_file (fits : ∀ entry ∈ entries, Fits entry) (sorted : Increasing entries) :
    iterateFile startLsn (fileBytes entries) =
      (entries.filter fun entry => startLsn ≤ entry.lsn, .success) := by
  have kept : ∀ entry ∈ entries.filter (fun entry => startLsn ≤ entry.lsn), Fits entry :=
    fun entry member => fits entry (mem_of_mem_filter member)
  have skipped : skipTo startLsn ((fileBytes entries).length + 1) (fileBytes entries) =
      .ok (fileBytes (entries.filter fun entry => startLsn ≤ entry.lsn)) :=
    skip_to_file fits sorted (Nat.lt_succ_of_le (length_le_file_bytes fits))
  rw [iterateFile, skipped]
  exact read_entries_file kept (Nat.lt_succ_of_le (length_le_file_bytes kept))

def lastNumber (firstLsn : Int) : Int :=
  min (firstLsn + maxEntryNumberPerFile - 1) (toSigned 4 (firstLsn + maxEntryNumberPerFile - 1))

inductive Holds : List LogFile → List LogEntry → Prop
  | none : Holds [] []
  | file {file : LogFile} {rest : List LogFile} {own later : List LogEntry}
      (bytes : file.bytes = fileBytes own) (fits : ∀ entry ∈ own, Fits entry)
      (bounded : ∀ entry ∈ own, entry.lsn ≤ lastNumber file.firstLsn)
      (others : Holds rest later) : Holds (file :: rest) (own ++ later)

variable {files : List LogFile} {written : List LogEntry}

theorem iterate_append (holds : Holds files written) (sorted : Increasing written)
    (last : List LogFile) :
    iterate (files ++ last) startLsn =
      (written.filter (fun entry => startLsn ≤ entry.lsn) ++ (iterate last startLsn).1,
        (iterate last startLsn).2) := by
  induction holds with
  | none => rfl
  | @file first rest own later bytes fits bounded others ih =>
    obtain ⟨own_sorted, later_sorted, _⟩ := pairwise_append.mp sorted
    have rest_read := ih later_sorted
    rw [filter_append, cons_append, append_assoc]
    by_cases listed : startLsn ≤ first.firstLsn + maxEntryNumberPerFile - 1
    · have kept : listFiles (first :: (rest ++ last)) startLsn =
          first :: listFiles (rest ++ last) startLsn :=
        filter_cons_of_pos (decide_eq_true listed)
      unfold iterate at rest_read ⊢
      rw [kept, iterateFiles, bytes, iterate_file fits own_sorted]
      simp only [if_true, rest_read]
    · have left_out : listFiles (first :: (rest ++ last)) startLsn =
          listFiles (rest ++ last) startLsn :=
        filter_cons_of_neg (by simpa using listed)
      have none_here : own.filter (fun entry => startLsn ≤ entry.lsn) = [] := by
        rw [filter_eq_nil_iff]
        intro entry member
        have beyond := (bounded entry member).trans (min_le_left _ _)
        simp only [decide_eq_true_eq]
        omega
      unfold iterate at rest_read ⊢
      rw [left_out, rest_read, none_here, nil_append]

theorem iterate_holds (holds : Holds files written) (sorted : Increasing written) :
    iterate files startLsn = (written.filter fun entry => startLsn ≤ entry.lsn, .success) := by
  have read := @iterate_append startLsn files written holds sorted []
  rw [append_nil] at read
  rw [read]
  exact Prod.ext (append_nil _) rfl

theorem holds_new_file (holds : Holds files written) (firstLsn : Int) :
    Holds (files ++ [⟨firstLsn, []⟩]) written := by
  induction holds with
  | none => exact @Holds.file ⟨firstLsn, []⟩ [] [] [] rfl nofun nofun .none
  | file bytes fits bounded others ih => exact .file bytes fits bounded ih

theorem append_last_cons (bytes : List Byte) (file second : LogFile) (rest : List LogFile) :
    appendLast bytes (file :: second :: rest) = file :: appendLast bytes (second :: rest) := rfl

theorem append_last_nil (files : List LogFile) : appendLast [] files = files := by
  induction files with
  | nil => rfl
  | cons first rest ih =>
    cases rest with
    | nil => simp [appendLast]
    | cons second rest => rw [append_last_cons, ih]

theorem append_last_first_lsns (bytes : List Byte) (files : List LogFile) :
    (appendLast bytes files).map LogFile.firstLsn = files.map LogFile.firstLsn := by
  induction files with
  | nil => rfl
  | cons first rest ih =>
    cases rest with
    | nil => rfl
    | cons second rest => exact congrArg (first.firstLsn :: ·) ih

variable {firstLsn : Int}

theorem holds_append_last (holds : Holds files written)
    (at_end : (files.map LogFile.firstLsn).getLast? = some firstLsn) (fits : Fits entry)
    (inside : entry.lsn ≤ lastNumber firstLsn) :
    Holds (appendLast entry.bytes files) (written ++ [entry]) := by
  induction holds with
  | none => cases at_end
  | @file first rest own later bytes own_fits bounded others ih =>
    cases rest with
    | nil =>
      cases others
      cases at_end
      have longer : first.bytes ++ entry.bytes = fileBytes (own ++ [entry]) := by
        simp [bytes, fileBytes]
      rw [append_nil, ← append_nil (own ++ [entry])]
      refine .file longer ?_ ?_ .none
      · exact forall_mem_append.mpr ⟨own_fits, forall_mem_singleton.mpr fits⟩
      · exact forall_mem_append.mpr ⟨bounded, forall_mem_singleton.mpr inside⟩
    | cons second rest =>
      rw [append_last_cons, append_assoc]
      refine .file bytes own_fits bounded (ih ?_)
      simpa using at_end

def WriterAt (log : Log) : Prop :=
  ∃ firstLsn, (log.files.map LogFile.firstLsn).getLast? = some firstLsn ∧
    log.writer.endLsn = toSigned 4 (firstLsn + maxEntryNumberPerFile - 1)

structure Buffered (entry : LogEntry) : Prop where
  lsn : 0 < entry.lsn
  moduleLower : 0 ≤ entry.moduleId
  moduleUpper : entry.moduleId < 4
  payload : (entry.payload.length : Int) ≤ maxPayloadSize

structure Kept (log : Log) : Prop where
  holds : Holds log.files log.written
  names : ∀ file ∈ log.files, 0 ≤ file.firstLsn
  writer : log.writer.opened = true → WriterAt log
  buffered : ∀ entry ∈ log.buffer, Buffered entry
  positive : ∀ entry ∈ log.written, 0 < entry.lsn
  sorted : Increasing (log.written ++ log.buffer)
  assigned : ∀ entry ∈ log.written ++ log.buffer, entry.lsn ≤ log.currentLsn
  appended : ∀ entry ∈ log.written ++ log.buffer, entry ∈ log.appended
  current : 0 ≤ log.currentLsn
  flushed : log.flushedLsn = 0 ∨ ∃ entry ∈ log.written, log.flushedLsn = entry.lsn
  checkPoint : log.checkPointLsn ≤ 1 ∨ ∃ entry ∈ log.written, log.checkPointLsn ≤ entry.lsn

variable {log next : Log}

theorem kept_create : Kept .create where
  holds := .none
  names := nofun
  writer := nofun
  buffered := nofun
  positive := nofun
  sorted := .nil
  assigned := nofun
  appended := nofun
  current := le_rfl
  flushed := .inl rfl
  checkPoint := .inl (by decide)

theorem kept_integral (kept : Kept log) : Integral log := by
  have sorted := (pairwise_append.mp kept.sorted).1
  exact
    { iterates := fun startLsn => iterate_holds kept.holds sorted
      increasing := sorted
      appended := fun entry member => kept.appended entry (mem_append_left _ member)
      assigned := fun entry member => kept.assigned entry (mem_append_left _ member) }

theorem module_index_range (module : LogModule) : 0 ≤ module.index ∧ module.index < 4 := by
  cases module <;> decide

theorem append_cases {module : LogModule} {payload : List Byte} (current : 0 ≤ log.currentLsn)
    (short : payload.length < 2 ^ 31) :
    (append log module payload).2 = log ∨
      ∃ entry, Buffered entry ∧ entry.lsn = log.currentLsn + 1 ∧
        (append log module payload).2 =
          { log with
            currentLsn := entry.lsn
            buffer := log.buffer ++ [entry]
            appended := log.appended ++ [entry] } := by
  have size : (mk (log.currentLsn + 1) module.index payload).size = payload.length :=
    size_of_short short
  unfold append
  simp only [size]
  by_cases large : maxPayloadSize < (payload.length : Int)
  · rw [if_pos large]
    exact .inl rfl
  · rw [if_neg large]
    obtain ⟨lower, upper⟩ := module_index_range module
    exact .inr ⟨_, ⟨Int.lt_add_one_iff.mpr current, lower, upper, Int.not_lt.mp large⟩, rfl, rfl⟩

theorem kept_append {module : LogModule} {payload : List Byte} (kept : Kept log)
    (short : payload.length < 2 ^ 31) : Kept (append log module payload).2 := by
  rcases @append_cases log module payload kept.current short with
    unchanged | ⟨entry, buffered, number, result⟩
  · rw [unchanged]
    exact kept
  rw [result]
  have fresh : ∀ earlier ∈ log.written ++ log.buffer, earlier.lsn < entry.lsn := by
    intro earlier member
    rw [number]
    exact Int.lt_add_one_iff.mpr (kept.assigned earlier member)
  have split : ∀ {claim : LogEntry → Prop}, (∀ other ∈ log.written ++ log.buffer, claim other) →
      claim entry → ∀ other ∈ log.written ++ (log.buffer ++ [entry]), claim other := by
    intro claim before new
    rw [← append_assoc]
    exact forall_mem_append.mpr ⟨before, forall_mem_singleton.mpr new⟩
  exact
    { kept with
      writer := kept.writer
      buffered := forall_mem_append.mpr ⟨kept.buffered, forall_mem_singleton.mpr buffered⟩
      sorted := by
        change Increasing (log.written ++ (log.buffer ++ [entry]))
        rw [← append_assoc]
        refine pairwise_append.mpr ⟨kept.sorted, pairwise_singleton _ _, ?_⟩
        intro earlier member other last
        exact mem_singleton.mp last ▸ fresh earlier member
      assigned := split (fun other member => (fresh other member).le) le_rfl
      appended := split
        (fun other member => mem_append_left _ (kept.appended other member))
        (mem_append_right _ (mem_singleton.mpr rfl))
      current := buffered.lsn.le }

theorem kept_open (kept : Kept log) (holds : Holds files log.written)
    (names : ∀ file ∈ files, 0 ≤ file.firstLsn)
    (at_end : (files.map LogFile.firstLsn).getLast? = some firstLsn) :
    Kept (log.open files firstLsn) :=
  { kept with
    holds := holds
    names := names
    writer := fun _ => ⟨firstLsn, at_end, rfl⟩ }

theorem next_first_lsn_nonneg (names : ∀ file ∈ files, 0 ≤ file.firstLsn) :
    0 ≤ nextFirstLsn files := by
  unfold nextFirstLsn
  split
  · exact le_rfl
  next file at_end =>
    have positive := names file (mem_of_getLast? at_end)
    simp only [maxEntryNumberPerFile]
    omega

theorem kept_next_file (kept : Kept log) : Kept (nextFile log) := by
  refine kept_open kept (holds_new_file kept.holds _) ?_ (by simp)
  refine forall_mem_append.mpr ⟨kept.names, forall_mem_singleton.mpr ?_⟩
  exact next_first_lsn_nonneg kept.names

theorem kept_last_file (kept : Kept log) : Kept (lastFile log) := by
  unfold lastFile
  split
  · exact kept_next_file kept
  next file at_end =>
    refine kept_open kept kept.holds kept.names ?_
    rw [getLast?_map, at_end]
    rfl

theorem fits_of_buffered (buffered : Buffered entry) (name : 0 ≤ firstLsn)
    (inside : entry.lsn ≤ toSigned 4 (firstLsn + maxEntryNumberPerFile - 1)) :
    Fits entry ∧ entry.lsn ≤ lastNumber firstLsn := by
  have bound := @to_signed_le 4 (firstLsn + maxEntryNumberPerFile - 1)
    (by simp only [maxEntryNumberPerFile]; omega)
  have small := to_signed_lt 4 (firstLsn + maxEntryNumberPerFile - 1)
  refine ⟨⟨buffered.lsn, ?_, buffered.moduleLower, buffered.moduleUpper, buffered.payload⟩, ?_⟩
  · omega
  · exact le_min (inside.trans bound) inside

theorem kept_flush {fault : Option Nat} (kept : Kept log) (opened : log.writer.opened = true)
    (met : CleanWrites log (.flushEntry fault)) (flushed : flushEntry log fault = some next) :
    Kept next := by
  unfold flushEntry at flushed
  split at flushed
  · cases flushed
  rename_i entry rest buffer
  split at flushed
  · cases flushed
    exact { kept with writer := kept.writer }
  rename_i inside
  split at flushed
  · cases flushed
    exact kept
  cases fault with
  | some count =>
    obtain ⟨_, ⟨⟩⟩ := ite_none_right_eq_some.mp flushed
    have nothing : count = 0 := met
    rw [nothing, take_zero, append_last_nil]
    exact kept
  | none =>
    cases flushed
    obtain ⟨firstLsn, at_end, bound⟩ := kept.writer opened
    have name : 0 ≤ firstLsn := by
      obtain ⟨file, listed, named⟩ := mem_map.mp (mem_of_getLast? at_end)
      exact named ▸ kept.names file listed
    have listed : entry ∈ log.buffer := buffer ▸ mem_cons_self
    obtain ⟨fits, within⟩ := fits_of_buffered (kept.buffered entry listed) name
      (bound ▸ Int.not_lt.mp inside)
    have moved : log.written ++ [entry] ++ rest = log.written ++ log.buffer := by
      rw [buffer, append_assoc, singleton_append]
    have new : entry ∈ log.written ++ [entry] := mem_append_right _ (mem_singleton.mpr rfl)
    exact
      { holds := holds_append_last kept.holds at_end fits within
        names := fun file member => by
          have named := mem_map_of_mem (f := LogFile.firstLsn) member
          rw [append_last_first_lsns] at named
          obtain ⟨old, old_listed, same⟩ := mem_map.mp named
          exact same ▸ kept.names old old_listed
        writer := fun _ => by
          refine ⟨firstLsn, ?_, bound⟩
          rw [append_last_first_lsns]
          exact at_end
        buffered := fun other member =>
          kept.buffered other (buffer ▸ mem_cons_of_mem _ member)
        positive := forall_mem_append.mpr
          ⟨kept.positive, forall_mem_singleton.mpr fits.lsnLower⟩
        sorted := moved ▸ kept.sorted
        assigned := moved ▸ kept.assigned
        appended := moved ▸ kept.appended
        current := kept.current
        flushed := .inr ⟨entry, new, rfl⟩
        checkPoint := kept.checkPoint.imp id fun ⟨other, member, below⟩ =>
          ⟨other, mem_append_left _ member, below⟩ }

theorem kept_sync (kept : Kept log) (drained : log.currentLsn ≤ log.flushedLsn) :
    Kept { log with checkPointLsn := log.currentLsn } := by
  have current := kept.current
  refine { kept with writer := kept.writer, checkPoint := ?_ }
  rcases kept.flushed with none | ⟨entry, member, last⟩
  · exact .inl (show log.currentLsn ≤ 1 by omega)
  · exact .inr ⟨entry, member, show log.currentLsn ≤ entry.lsn by omega⟩

/-- The largest number so far; the induction is on the entries that remain. -/
theorem max_lsn_from (entries : List LogEntry) (largest : Int) :
    let result := entries.foldl
      (fun largest entry => if largest < entry.lsn then entry.lsn else largest) largest
    largest ≤ result ∧ (∀ entry ∈ entries, entry.lsn ≤ result) ∧
      (result = largest ∨ ∃ entry ∈ entries, result = entry.lsn) := by
  simp only [← max_def_lt]
  induction entries generalizing largest with
  | nil => exact ⟨le_rfl, nofun, .inl rfl⟩
  | cons first rest ih =>
    obtain ⟨above, bounds, reached⟩ := ih (max largest first.lsn)
    refine ⟨(le_max_left _ _).trans above, ?_, ?_⟩
    · exact forall_mem_cons.mpr ⟨(le_max_right _ _).trans above, bounds⟩
    · rcases reached with same | ⟨entry, later, same⟩
      · rcases max_choice largest first.lsn with old | new
        · exact .inl (same.trans old)
        · exact .inr ⟨first, mem_cons_self, same.trans new⟩
      · exact .inr ⟨entry, mem_cons_of_mem _ later, same⟩

theorem assigned_after_restart (kept : Kept log) :
    ∀ entry ∈ log.written,
      entry.lsn ≤ maxLsn (log.written.filter fun entry => log.checkPointLsn ≤ entry.lsn) := by
  obtain ⟨_, bounds, _⟩ :=
    max_lsn_from (log.written.filter fun entry => log.checkPointLsn ≤ entry.lsn) 0
  intro entry member
  by_cases replayed : log.checkPointLsn ≤ entry.lsn
  · exact bounds entry (mem_filter.mpr ⟨member, decide_eq_true replayed⟩)
  · rcases kept.checkPoint with none | ⟨last, listed, covered⟩
    · have positive := kept.positive entry member
      omega
    · have largest := bounds last (mem_filter.mpr ⟨listed, decide_eq_true covered⟩)
      exact (Int.not_le.mp replayed).le.trans (covered.trans largest)

theorem kept_restart (kept : Kept log) (restarted : restart log = some next) : Kept next := by
  have sorted := (pairwise_append.mp kept.sorted).1
  obtain ⟨nonneg, _, reached⟩ :=
    max_lsn_from (log.written.filter fun entry => log.checkPointLsn ≤ entry.lsn) 0
  have largest := assigned_after_restart kept
  unfold restart at restarted
  rw [iterate_holds kept.holds sorted] at restarted
  cases restarted
  exact
    { holds := kept.holds
      names := kept.names
      writer := nofun
      buffered := nofun
      positive := kept.positive
      sorted := by simpa using sorted
      assigned := by simpa using largest
      appended := by
        simpa using fun entry member => kept.appended entry (mem_append_left _ member)
      current := nonneg
      flushed := reached.imp id fun ⟨entry, member, same⟩ =>
        ⟨entry, mem_of_mem_filter member, same⟩
      checkPoint := kept.checkPoint }

theorem kept_step {action : Action} (kept : Kept log) (met : CleanWrites log action)
    (taken : step log action = some next) : Kept next := by
  cases action with
  | append module payload =>
    rw [← some.inj taken]
    exact kept_append kept met
  | openFile =>
    simp only [step] at taken
    split at taken
    · cases taken
      exact kept_next_file kept
    · obtain ⟨_, ⟨⟩⟩ := ite_none_left_eq_some.mp taken
      exact kept_last_file kept
  | flushEntry fault =>
    obtain ⟨⟨opened, _⟩, result⟩ := ite_none_right_eq_some.mp taken
    exact kept_flush kept opened met result
  | sync =>
    obtain ⟨drained, ⟨⟩⟩ := ite_none_right_eq_some.mp taken
    exact kept_sync kept drained
  | restart => exact kept_restart kept taken

theorem clean_writes_keep_log (ran : Reaches step CleanWrites Log.create log) : Integral log :=
  kept_integral (reaches_invariant Kept (fun _ _ _ => kept_step) kept_create ran)

def sampleEntries : List Action :=
  [.append .transaction [1], .openFile, .flushEntry (some 0), .flushEntry none, .sync,
    .append .bufferPool [2, 3], .flushEntry none, .append .bplusTree [4], .restart,
    .append .recordManager [5], .openFile, .flushEntry none]

theorem sample_entries_run :
    (run step CleanWrites Log.create sampleEntries).isSome = true := by
  decide +kernel

/-- A failed write is retried; the entry that was in the buffer at the restart is not read. -/
theorem clean_writes_keep_log_over_restart :
    ∃ log, Reaches step CleanWrites Log.create log ∧
      log.written.map payload = [[1], [2, 3], [5]] ∧ Integral log :=
  ⟨_, run_get_reaches sample_entries_run, by decide +kernel,
    clean_writes_keep_log (run_get_reaches sample_entries_run)⟩

def AnyWrites (_ : Log) (_ : Action) : Prop := True

instance (log : Log) (action : Action) : Decidable (AnyWrites log action) :=
  inferInstanceAs (Decidable True)

def retriedEntry : List Action :=
  [.append .transaction [1], .openFile, .flushEntry (some 16), .flushEntry none]

theorem retried_entry_runs :
    (run step AnyWrites Log.create retriedEntry).isSome = true := by
  decide +kernel

/-- The first byte of the second header is read as the payload, and the rest as an entry. -/
theorem retried_write_breaks_log :
    ¬ ∀ log, Reaches step AnyWrites Log.create log → Integral log := by
  intro integral
  have read := (integral _ (run_get_reaches retried_entry_runs)).iterates 0
  have fails : (iterate ((run step AnyWrites Log.create retriedEntry).get
      retried_entry_runs).files 0).2 = .ioerrRead := by decide +kernel
  rw [read] at fails
  cases fails

end CsuDbms.LogFileModel
