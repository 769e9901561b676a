import CsuDbms.RecordFileModel

/-!
# Recovery of record files

The calls of a record file handler leave a log in which each entry leads from one state of the file
to the next. After a crash every page, the header page included, is on disk as some image it had.
Replaying the log brings header and record pages to the state after the last entry on disk, exactly
if the entries are about pages of the data file and no entry the header image already covers is
about a page that this image no longer allocates: the replay fetches a page before it compares the
numbers, and fetching an unallocated page, or one behind the end of the file, fails.
-/

namespace CsuDbms.RecordFileModel

open BufferPoolHeaderModel List Option Function RecordFile RecordFileHandler
open RecordPageModel
open RedoLog
open TransitionSystem

variable {Record : Type} {maxPages fileLength : Nat} {entry : Entry Record} {file disk : RecordFile Record}
  {lsn : Int} {page : Nat}

section Handler

variable {table : Table} {handler : RecordFileHandler Record}

@[simp] theorem lastLsn_write (entry : Entry Record) (file : RecordFile Record) :
    lastLsn 0 (handler.write lsn entry file).log = lsn := by
  simp [write]

@[simp] theorem lastLsn_changePage (change : Change Record) (next : RecordPage Record) :
    lastLsn 0 (handler.changePage table lsn page change next).log = lsn := by
  simp [changePage]

theorem findFreePage_allocated {order : List Nat} {freePages remaining : Finset Nat}
    (found : findFreePage file order freePages = (.ok (some page), remaining)) :
    file.header.checkPageNum page = true := by
  fun_induction findFreePage file order freePages with
  | case1 | case4 => cases found
  | case2 _ _ _ _ _ ih => exact ih found
  | case3 _ _ _ allocated =>
    cases found
    exact allocated

theorem skip_header {current : RecordFile Record} (other : entry.recordPage? = none)
    (newer : lsn ≤ current.headerLsn) :
    current.replayEntry maxPages fileLength lsn entry = .ok current := by
  cases entry with
  | allocatePage page =>
    simp [replayEntry, BPFileHeader.redoAllocatePage, newer, Except.map]
  | deallocatePage page =>
    simp [replayEntry, BPFileHeader.redoDeallocatePage, newer, Except.map]
  | record format page change => cases other

theorem replay_append (entries : List (Int × Entry Record)) :
    disk.replay maxPages fileLength (entries ++ [(lsn, entry)]) =
      (disk.replay maxPages fileLength entries).bind fun current =>
        current.replayEntry maxPages fileLength lsn entry := by
  simp only [replay, foldlM_append, foldlM_cons, foldlM_nil, bind_pure]
  rfl

end Handler

variable [Inhabited Record]

inductive Writes (maxPages : Nat) :
    RecordFile Record → Int → Entry Record → RecordFile Record → Prop
  | reuse {file : RecordFile Record} {lsn : Int} {page : Nat}
      (free : file.header.freePage = some page) :
      Writes maxPages file lsn (.allocatePage page) (file.reusePage lsn page)
  | extend {file : RecordFile Record} {lsn : Int} (room : file.header.pageCount < maxPages) :
      Writes maxPages file lsn (.allocatePage file.header.pageCount) (file.extendPages lsn)
  | dispose {file : RecordFile Record} {lsn : Int} {page : Nat}
      (allocated : file.header.checkPageNum page = true)
      (empty : (file.pages page).isEmpty = true) :
      Writes maxPages file lsn (.deallocatePage page) (file.disposePage lsn page)
  | change {file : RecordFile Record} {lsn : Int} {format : StorageFormat} {page : Nat}
      {change : Change Record} {next : RecordPage Record}
      (allocated : file.header.checkPageNum page = true)
      (changed : change.replay format (file.pages page) = .ok next) :
      Writes maxPages file lsn (.record format page change)
        (file.setPage page (next.setLsn lsn))

def Logs (table : Table) (handler : RecordFileHandler Record) : Prop :=
  History (Writes table.maxPages) 0 .create handler.log handler.file

variable {next : RecordFile Record}

section Calls

variable {table : Table} {handler : RecordFileHandler Record}

theorem logs_write (logs : Logs table handler) (later : lastLsn 0 handler.log < lsn)
    (written : Writes table.maxPages handler.file lsn entry file) :
    Logs table (handler.write lsn entry file) :=
  .append logs later written

theorem logs_changePage {change : Change Record} {next : RecordPage Record}
    (logs : Logs table handler) (later : lastLsn 0 handler.log < lsn)
    (allocated : handler.file.header.checkPageNum page = true)
    (changed : change.replay table.format (handler.file.pages page) = .ok next) :
    Logs table (handler.changePage table lsn page change next) :=
  logs_write logs later (.change allocated changed)

variable {record : Record}

theorem logs_insertIntoPage (logs : Logs table handler) (later : lastLsn 0 handler.log < lsn)
    (allocated : handler.file.header.checkPageNum page = true) :
    Logs table (handler.insertIntoPage table lsn page record).1 := by
  unfold insertIntoPage
  split
  · exact logs
  · rename_i next slot inserted
    refine logs_changePage logs later allocated ?_
    simp [Change.replay, inserted, Except.map]

theorem allocatePage_eq_ok (allocation : file.allocatePage maxPages lsn = .ok (next, page)) :
    Writes maxPages file lsn (.allocatePage page) next ∧
      next.header.checkPageNum page = true := by
  unfold allocatePage at allocation
  split at allocation
  · rename_i free
    cases allocation
    have inside := (BPFileHeader.freePage_eq_some free).1
    exact ⟨.reuse free, by simp [reusePage, BPFileHeader.reuse, inside]⟩
  · split at allocation
    · cases allocation
    · rename_i room
      cases allocation
      exact ⟨.extend (not_le.mp room), by simp [extendPages, BPFileHeader.extend]⟩

section

variable (logs : Logs table handler)
include logs

theorem logs_insertIntoNewPage (current : lastLsn 0 handler.log ≤ lsn) :
    Logs table (handler.insertIntoNewPage table lsn record).1 := by
  unfold insertIntoNewPage
  split
  · exact logs
  · rename_i file page allocation
    obtain ⟨written, present⟩ := allocatePage_eq_ok allocation
    have allocated := logs_write logs (by omega) written
    have initialized : Logs table
        ((handler.write (lsn + 1) (.allocatePage page) file).changePage table (lsn + 2) page
          (.initPage table.recordSize table.columnIndex)
          ((file.pages page).initEmptyPage table.recordSize table.columnIndex)) :=
      logs_changePage allocated (by simp) present rfl
    exact logs_insertIntoPage initialized (by simp) present

theorem logs_insertRecord {order : List Nat} (current : lastLsn 0 handler.log ≤ lsn) :
    Logs table (handler.insertRecord table lsn order record).1 := by
  unfold insertRecord
  split
  · exact logs
  · rename_i page freePages found
    have searched : Logs table { handler with freePages := freePages } := logs
    exact logs_insertIntoPage searched (Int.lt_add_one_iff.mpr current)
      (findFreePage_allocated found)
  · rename_i freePages _
    have searched : Logs table { handler with freePages := freePages } := logs
    exact logs_insertIntoNewPage searched current

theorem logs_releasePage {pinned : Bool} (later : lastLsn 0 handler.log < lsn)
    (allocated : handler.file.header.checkPageNum page = true) :
    Logs table (handler.releasePage lsn page pinned) := by
  unfold releasePage
  split
  · rename_i release
    have empty := (Bool.and_eq_true_iff.mp release).1
    have erased : Logs table { handler with freePages := handler.freePages.erase page } := logs
    exact logs_write erased later (.dispose allocated empty)
  · exact logs

theorem logs_deleteRecord {rid : RID} {pinned : Bool} (current : lastLsn 0 handler.log ≤ lsn) :
    Logs table (handler.deleteRecord table lsn rid pinned).1 := by
  unfold deleteRecord
  split
  · rename_i allocated
    split
    · exact logs
    · rename_i next deletion
      have changed : (Change.delete rid.slotNum).replay table.format
          (handler.file.pages rid.pageNum) = .ok next := deletion
      have deleted := logs_changePage logs (Int.lt_add_one_iff.mpr current) allocated changed
      exact logs_releasePage deleted (by simp) allocated
  · exact logs

theorem logs_visitRecord {rid : RID} {updater : Record → Option Record}
    (current : lastLsn 0 handler.log ≤ lsn) :
    Logs table (handler.visitRecord table lsn rid updater).1 := by
  unfold visitRecord
  split
  · rename_i allocated
    split
    · exact logs
    · split
      · exact logs
      · split
        · exact logs
        · rename_i update
          exact logs_changePage logs (Int.lt_add_one_iff.mpr current) allocated update
  · exact logs

theorem logs_step {action : Action Record} {next : RecordFileHandler Record}
    (taken : step table handler action = some next) :
    Logs table next := by
  cases action with
  | insert lsn order record =>
    obtain ⟨enabled, ⟨⟩⟩ := ite_none_right_eq_some.mp taken
    exact logs_insertRecord logs enabled.1
  | delete lsn rid pinned =>
    obtain ⟨enabled, ⟨⟩⟩ := ite_none_right_eq_some.mp taken
    exact logs_deleteRecord logs enabled.1
  | update lsn rid updater =>
    obtain ⟨enabled, ⟨⟩⟩ := ite_none_right_eq_some.mp taken
    exact logs_visitRecord logs enabled.1

end

theorem logs_of_reaches (run : Reaches (step table) (fun _ _ => True) .start handler) :
    Logs table handler := by
  have started : Logs table (start : RecordFileHandler Record) := History.start
  exact reaches_invariant (Logs table) (fun _ _ _ logs _ taken => logs_step logs taken) started run

end Calls

/-- Pages that are not allocated hold no record, and pages behind the last one were
never written. -/
structure Sound (file : RecordFile Record) : Prop where
  counted : ∀ page, (file.pages page).Counted
  vacant : ∀ page, file.header.bitmap page = false →
    ∀ slot, (file.pages page).record? slot = none
  untouched : ∀ page, file.header.pageCount ≤ page → file.pages page = .clear 0

theorem record?_clear (lsn : Int) (slot : Nat) :
    (RecordPage.clear lsn : RecordPage Record).record? slot = none := by
  simp [RecordPage.record?, RecordPage.clear]

theorem sound_create : Sound (create : RecordFile Record) where
  counted := fun _ => RecordPage.counted_clear 0
  vacant := fun _ _ slot => record?_clear 0 slot
  untouched := fun _ _ => rfl

theorem Sound.extendPages_pages (sound : Sound file) (lsn : Int) :
    (file.extendPages lsn).pages = file.pages :=
  update_eq_self_iff.mpr (sound.untouched _ le_rfl).symm

theorem Sound.writes (sound : Sound file) (written : Writes maxPages file lsn entry next) :
    Sound next := by
  cases written with
  | @reuse page free =>
    have inside := (BPFileHeader.freePage_eq_some free).1
    refine ⟨fun other => ?_, fun other clear slot => ?_, fun other beyond => ?_⟩
    · by_cases same : other = page
      · simpa [reusePage, same] using RecordPage.counted_clear lsn
      · simpa [reusePage, same] using sound.counted other
    · have other_ne : other ≠ page := by
        rintro rfl
        simp [reusePage, BPFileHeader.reuse] at clear
      simp only [reusePage, BPFileHeader.reuse,
        update_of_ne other_ne] at clear ⊢
      exact sound.vacant other clear slot
    · have bound : file.header.pageCount ≤ other := beyond
      have other_ne : other ≠ page := by omega
      simpa [reusePage, other_ne] using sound.untouched other bound
  | extend room =>
    refine ⟨fun other => ?_, fun other clear slot => ?_, fun other beyond => ?_⟩
    · rw [sound.extendPages_pages]
      exact sound.counted other
    · rw [sound.extendPages_pages]
      have other_ne : other ≠ file.header.pageCount := by
        rintro rfl
        simp [extendPages, BPFileHeader.extend] at clear
      simp only [extendPages, BPFileHeader.extend,
        update_of_ne other_ne] at clear
      exact sound.vacant other clear slot
    · rw [sound.extendPages_pages]
      exact sound.untouched other (Nat.le_of_succ_le beyond)
  | @dispose page allocated empty =>
    refine ⟨sound.counted, fun other clear slot => ?_, sound.untouched⟩
    by_cases same : other = page
    · subst same
      exact (sound.counted other).no_record empty slot
    · simp only [disposePage, BPFileHeader.dispose,
        update_of_ne same] at clear
      exact sound.vacant other clear slot
  | @change format page change redone allocated changed =>
    have present := (BPFileHeader.checkPageNum_natCast _ _).mp allocated
    refine ⟨fun other => ?_, fun other clear slot => ?_, fun other beyond => ?_⟩
    · by_cases same : other = page
      · have counted : redone.Counted := (sound.counted page).replay changed
        have stamped : (redone.setLsn lsn).Counted := ⟨counted.count, counted.inside⟩
        simpa [setPage, same] using stamped
      · simpa [setPage, same] using sound.counted other
    · have other_ne : other ≠ page := by
        rintro rfl
        exact Bool.false_ne_true (Eq.trans (Eq.symm clear) present.2)
      simpa [setPage, other_ne] using sound.vacant other clear slot
    · have bound : file.header.pageCount ≤ other := beyond
      have other_ne : other ≠ page := by omega
      simpa [setPage, other_ne] using sound.untouched other bound

variable {log : List (Logged (Entry Record) (RecordFile Record))}

theorem sound_of_history (history : History (Writes maxPages) 0 .create log file) :
    Sound file := by
  induction history with
  | start => exact sound_create
  | append _ _ written ih => exact ih.writes written

theorem header_stamps (maxPages : Nat) :
    Stamps (Writes maxPages) 0 (create : RecordFile Record)
      (fun file => (file.header, file.headerLsn)) Prod.snd where
  fresh := le_rfl
  stamped := by
    intro file lsn entry next written
    cases written with
    | reuse | extend | dispose => exact .inr (.inr rfl)
    | change => exact .inl rfl

theorem page_stamps (maxPages page : Nat) :
    Stamps (Writes maxPages) 0 (create : RecordFile Record)
      (fun file => file.pages page) RecordPage.lsn where
  fresh := le_rfl
  stamped := by
    intro file lsn entry next written
    cases written with
    | @reuse reused free =>
      by_cases same : page = reused
      · subst same
        exact .inr (.inr (by simp [reusePage, RecordPage.clear]))
      · exact .inl (update_of_ne same _ _)
    | extend room =>
      by_cases same : page = file.header.pageCount
      · subst same
        exact .inr (.inl (by simp [extendPages, create]))
      · exact .inl (update_of_ne same _ _)
    | dispose => exact .inl rfl
    | @change format changed =>
      by_cases same : page = changed
      · subst same
        exact .inr (.inr (by simp [setPage, RecordPage.setLsn]))
      · exact .inl (update_of_ne same _ _)

/-- The header during replay. Its number may stay behind: redoing the second
allocation of a page does not set it. -/
def HeaderAgrees (live current : BPFileHeader × Int) : Prop :=
  current.1 = live.1 ∧ current.2 ≤ live.2

structure Imaged (log : List (Logged (Entry Record) (RecordFile Record))) (fileLength : Nat)
    (disk : RecordFile Record) : Prop where
  header : (disk.header, disk.headerLsn) =
    (fun file => (file.header, file.headerLsn)) (stateAt .create log disk.headerLsn)
  pages : ∀ page < fileLength, disk.pages page =
    (fun file => file.pages page) (stateAt .create log (disk.pages page).lsn)

structure Follows (fileLength : Nat) (disk : RecordFile Record) (reached : Int)
    (live current : RecordFile Record) : Prop where
  header : Tracks Prod.snd HeaderAgrees (disk.header, disk.headerLsn) reached
    (live.header, live.headerLsn) (current.header, current.headerLsn)
  pages : ∀ page < fileLength, Tracks RecordPage.lsn RecordPage.Agrees (disk.pages page) reached
    (live.pages page) (current.pages page)

/-- The entry is about a page of the data file, and not about one that the header image, already
past the entry, does not allocate. -/
def Fetchable (fileLength : Nat) (disk : RecordFile Record) (lsn : Int) (entry : Entry Record) :
    Prop :=
  ∀ page ∈ entry.recordPage?, page < fileLength ∧
    (lsn ≤ disk.headerLsn → disk.header.checkPageNum page = true)

instance (fileLength : Nat) (disk : RecordFile Record) (lsn : Int) (entry : Entry Record) :
    Decidable (Fetchable fileLength disk lsn entry) := by
  unfold Fetchable
  infer_instance

section Replay

variable {rest : List (Logged (Entry Record) (RecordFile Record))}
  {state current : RecordFile Record}

theorem redo_header (written : Writes maxPages state lsn entry next)
    (other : entry.recordPage? = none) (same : current.header = state.header)
    (older : current.headerLsn < lsn) :
    ∃ headerLsn ≤ next.headerLsn, current.replayEntry maxPages fileLength lsn entry =
      .ok { current with header := next.header, headerLsn := headerLsn } := by
  have fresh : ¬lsn ≤ current.headerLsn := not_le.mpr older
  cases written with
  | @reuse page free =>
    obtain ⟨inside, clear⟩ := BPFileHeader.freePage_eq_some free
    refine ⟨current.headerLsn, older.le, ?_⟩
    simp [replayEntry, BPFileHeader.redoAllocatePage, fresh, same, inside, clear,
      Except.map, reusePage]
  | extend room =>
    refine ⟨lsn, le_rfl, ?_⟩
    simp [replayEntry, BPFileHeader.redoAllocatePage, fresh, same,
      Nat.not_le.mpr room, Except.map, extendPages]
  | @dispose page allocated empty =>
    obtain ⟨inside, set⟩ := (BPFileHeader.checkPageNum_natCast _ _).mp allocated
    refine ⟨lsn, le_rfl, ?_⟩
    simp [replayEntry, BPFileHeader.redoDeallocatePage, fresh, same,
      Nat.not_le.mpr inside, set, Except.map, disposePage]
  | change => cases other

section

variable (earlier : History (Writes maxPages) 0 .create log state) (later : lastLsn 0 log < lsn)
  (written : Writes maxPages state lsn entry next)
include earlier later written

theorem replay_header_entry (sorted : ∀ logged ∈ rest, lsn < logged.lsn)
    (imaged : Imaged (log ++ ⟨lsn, entry, next⟩ :: rest) fileLength disk)
    (follows : Follows fileLength disk (lastLsn 0 log) state current) (other : entry.recordPage? = none) :
    ∃ redone, current.replayEntry maxPages fileLength lsn entry = .ok redone ∧
      redone.pages = current.pages ∧
      Tracks Prod.snd HeaderAgrees (disk.header, disk.headerLsn) lsn
        (next.header, next.headerLsn) (redone.header, redone.headerLsn) := by
  have stamps := @header_stamps Record _ maxPages
  have bounded := stamps.le_lastLsn earlier state earlier.last_mem_states
  by_cases newer : lsn ≤ current.headerLsn
  · refine ⟨current, skip_header other newer, rfl, ?_⟩
    refine stamps.tracks_step (fun _ => ⟨rfl, le_rfl⟩) earlier later written sorted imaged.header
      follows.header (fun _ => rfl) fun agrees => ?_
    exact absurd (agrees.2.trans bounded) (by simp; omega)
  · have agrees := stamps.tracks_agrees earlier sorted imaged.header follows.header newer
    obtain ⟨headerLsn, within, replayed⟩ :=
      redo_header written other agrees.1 (not_le.mp newer)
    refine ⟨_, replayed, rfl, ?_⟩
    refine stamps.tracks_step (fun _ => ⟨rfl, le_rfl⟩) earlier later written sorted imaged.header
      follows.header (fun ahead => absurd ahead newer) fun _ => ⟨rfl, within⟩

/-- Entries that are not about a record page keep every page in agreement: the page
a second allocation clears held no record. -/
theorem agrees_of_header_entry (other : entry.recordPage? = none) {redone : RecordPage Record}
    (agrees : (state.pages page).Agrees redone) :
    (next.pages page).Agrees redone := by
  have sound := sound_of_history earlier
  cases written with
  | @reuse reused free =>
    by_cases same : page = reused
    · subst same
      have bounded := (page_stamps maxPages page).le_lastLsn earlier state
        earlier.last_mem_states
      have empty := sound.vacant page (BPFileHeader.freePage_eq_some free).2
      simp only [reusePage, update_self]
      refine ⟨agrees.lsn_le.trans (bounded.trans later.le), fun slot => ?_, fun laid => ?_⟩
      · rw [agrees.records, empty, record?_clear]
      · exact absurd rfl laid
    · simpa [reusePage, same] using agrees
  | extend room =>
    rw [sound.extendPages_pages]
    exact agrees
  | dispose allocated empty => exact agrees
  | change => cases other

end

variable {format : StorageFormat}

section

variable (earlier : History (Writes maxPages) 0 .create log state)
include earlier

section

variable (later : lastLsn 0 log < lsn)
include later

section

variable {change : Change Record}
  (written : Writes maxPages state lsn (.record format page change) next)
  (sorted : ∀ logged ∈ rest, lsn < logged.lsn)
  (imaged : Imaged (log ++ ⟨lsn, .record format page change, next⟩ :: rest) fileLength disk)
  (follows : Follows fileLength disk (lastLsn 0 log) state current)
include written sorted imaged follows

theorem replay_changed_page (fetched : current.header.checkPageNum page = true)
    (inside : page < fileLength) :
    ∃ redone, current.replayEntry maxPages fileLength lsn (.record format page change) =
        .ok (current.setPage page redone) ∧
      Tracks RecordPage.lsn RecordPage.Agrees (disk.pages page) lsn (next.pages page) redone := by
  have stamps := @page_stamps Record _ maxPages page
  have bounded := stamps.le_lastLsn earlier state earlier.last_mem_states
  simp only [replayEntry, if_pos fetched, if_neg (not_le.mpr inside)]
  by_cases newer : lsn ≤ (current.pages page).lsn
  · refine ⟨current.pages page, ?_, ?_⟩
    · rw [if_pos newer, setPage, update_eq_self]
    · refine stamps.tracks_step RecordPage.agrees_refl earlier later written sorted
        (imaged.pages page inside) (follows.pages page inside) (fun _ => rfl) fun agrees => ?_
      exact absurd newer (agrees.lsn_le.trans_lt (bounded.trans_lt later)).not_ge
  · have agrees := stamps.tracks_agrees earlier sorted (imaged.pages page inside)
      (follows.pages page inside) newer
    obtain ⟨changed, agreed⟩ : ∃ redone, change.replay format (current.pages page) = .ok redone ∧
        (next.pages page).Agrees (redone.setLsn lsn) := by
      cases written with
      | change allocated changed =>
        have counted := (sound_of_history earlier).counted page
        simpa [setPage] using agrees.replay counted changed
    refine ⟨changed.setLsn lsn, ?_, ?_⟩
    · rw [if_neg newer, agreed.1]
      rfl
    · exact stamps.tracks_step RecordPage.agrees_refl earlier later written sorted
        (imaged.pages page inside) (follows.pages page inside) (fun ahead => absurd ahead newer)
        fun _ => agreed.2

theorem replay_record_entry (fetched : current.header.checkPageNum page = true)
    (inside : page < fileLength) :
    ∃ redone, current.replayEntry maxPages fileLength lsn (.record format page change) = .ok redone ∧
      Follows fileLength disk lsn next redone := by
  obtain ⟨redone, replayed, tracks⟩ :=
    replay_changed_page earlier later written sorted imaged follows fetched inside
  have header_same : (next.header, next.headerLsn) = (state.header, state.headerLsn) := by
    cases written with
    | change => rfl
  have page_same : ∀ other, other ≠ page → next.pages other = state.pages other := by
    cases written with
    | change => exact fun other distinct => update_of_ne distinct _ _
  refine ⟨_, replayed, ?_, fun other within => ?_⟩
  · exact (header_stamps maxPages).tracks_step (fun _ => ⟨rfl, le_rfl⟩) earlier later written
      sorted imaged.header follows.header (fun _ => rfl) fun agrees => header_same ▸ agrees
  · by_cases same : other = page
    · subst same
      simpa [setPage] using tracks
    · have kept : (current.setPage page redone).pages other = current.pages other :=
        update_of_ne same _ _
      rw [kept]
      exact (page_stamps maxPages other).tracks_step RecordPage.agrees_refl earlier later written
        sorted (imaged.pages other within) (follows.pages other within) (fun _ => rfl)
        fun agrees => page_same other same ▸ agrees

theorem fetch_iff :
    current.header.checkPageNum page = true ∧ page < fileLength ↔
      Fetchable fileLength disk lsn (.record format page change) := by
  have about : Fetchable fileLength disk lsn (.record format page change) ↔
      page < fileLength ∧ (lsn ≤ disk.headerLsn → disk.header.checkPageNum page = true) := by
    simp [Fetchable, Entry.recordPage?]
  rw [about, and_comm]
  refine and_congr_right fun _ => ?_
  have tracks := follows.header
  unfold Tracks at tracks
  split at tracks
  · rename_i ahead
    have covers := (header_stamps maxPages).image_covers earlier sorted imaged.header ahead
    have same : current.header = disk.header := congrArg Prod.fst tracks
    rw [same]
    exact ⟨fun allocated _ => allocated, fun fetchable => fetchable covers⟩
  · rename_i behind
    have present : state.header.checkPageNum page = true := by
      cases written with
      | change allocated changed => exact allocated
    have same : current.header = state.header := tracks.1
    rw [same]
    refine ⟨fun _ covered => ?_, fun _ => present⟩
    exact absurd (later.trans_le covered) behind

end

variable (written : Writes maxPages state lsn entry next)
  (sorted : ∀ logged ∈ rest, lsn < logged.lsn)
  (imaged : Imaged (log ++ ⟨lsn, entry, next⟩ :: rest) fileLength disk)
  (follows : Follows fileLength disk (lastLsn 0 log) state current)
include written sorted imaged follows

theorem replay_entry (fetchable : Fetchable fileLength disk lsn entry) :
    ∃ redone, current.replayEntry maxPages fileLength lsn entry = .ok redone ∧
      Follows fileLength disk lsn next redone := by
  by_cases about : entry.recordPage? = none
  · obtain ⟨redone, replayed, pages, header⟩ :=
      replay_header_entry earlier later written sorted imaged follows about
    refine ⟨redone, replayed, header, fun page inside => ?_⟩
    rw [pages]
    exact (page_stamps maxPages page).tracks_step RecordPage.agrees_refl earlier later written
      sorted (imaged.pages page inside) (follows.pages page inside) (fun _ => rfl)
      (agrees_of_header_entry earlier later written about)
  · cases entry with
    | allocatePage page => exact absurd rfl about
    | deallocatePage page => exact absurd rfl about
    | record format page change =>
      have fetched := (fetch_iff earlier later written sorted imaged follows).mpr fetchable
      exact replay_record_entry earlier later written sorted imaged follows fetched.1 fetched.2

theorem fetchable_of_replay_entry {redone : RecordFile Record}
    (replayed : current.replayEntry maxPages fileLength lsn entry = .ok redone) :
    Fetchable fileLength disk lsn entry := by
  cases entry with
  | allocatePage page => rintro _ ⟨⟩
  | deallocatePage page => rintro _ ⟨⟩
  | record format page change =>
    refine (fetch_iff earlier later written sorted imaged follows).mp ?_
    simp only [replayEntry] at replayed
    split at replayed
    · rename_i allocated
      split at replayed
      · cases replayed
      · rename_i inside
        exact ⟨allocated, not_le.mp inside⟩
    · cases replayed

end

end

variable {whole : List (Logged (Entry Record) (RecordFile Record))}
  {last : RecordFile Record} (history : History (Writes maxPages) 0 .create whole last)
  (imaged : Imaged whole fileLength disk)
include history imaged

/-- The replay of a part of the log, by induction on its entries. -/
theorem replay_follows (earlier : History (Writes maxPages) 0 .create log state)
    (rest : List (Logged (Entry Record) (RecordFile Record))) (part : log ++ rest = whole)
    (fetchable : ∀ logged ∈ log, Fetchable fileLength disk logged.lsn logged.entry) :
    ∃ current, disk.replay maxPages fileLength (entries log) = .ok current ∧
      Follows fileLength disk (lastLsn 0 log) state current := by
  induction earlier generalizing rest with
  | start =>
    refine ⟨disk, rfl, ?_, fun page inside => ?_⟩
    · exact (header_stamps maxPages).tracks_start (fun _ => ⟨rfl, le_rfl⟩) history imaged.header
    · exact (page_stamps maxPages page).tracks_start RecordPage.agrees_refl history
        (imaged.pages page inside)
  | append earlier later written ih =>
    rename_i log state next lsn entry
    rw [← append_cons] at part
    obtain ⟨current, replayed, follows⟩ := ih _ part fun logged member =>
      fetchable logged (mem_append_left _ member)
    subst part
    obtain ⟨redone, redo, follows⟩ := replay_entry earlier later written history.sorted_rest
      imaged follows (fetchable ⟨lsn, entry, next⟩ (by simp))
    refine ⟨redone, ?_, by simpa using follows⟩
    rw [entries_append, replay_append, replayed]
    exact redo

theorem fetchable_of_replay (earlier : History (Writes maxPages) 0 .create log state)
    (rest : List (Logged (Entry Record) (RecordFile Record))) (part : log ++ rest = whole)
    (replayed : disk.replay maxPages fileLength (entries log) = .ok current) :
    ∀ logged ∈ log, Fetchable fileLength disk logged.lsn logged.entry := by
  induction earlier generalizing rest current with
  | start => simp
  | append earlier later written ih =>
    rename_i log state next lsn entry
    rw [← append_cons] at part
    rw [entries_append, replay_append] at replayed
    cases before : disk.replay maxPages fileLength (entries log) with
    | error rc => simp [before, Except.bind] at replayed
    | ok reached =>
      rw [before] at replayed
      have fetchable := ih _ part before
      obtain ⟨found, again, follows⟩ :=
        replay_follows history imaged earlier _ part fetchable
      obtain rfl : reached = found := Except.ok.inj (before.symm.trans again)
      subst part
      refine forall_mem_append.mpr ⟨fetchable, forall_mem_singleton.mpr ?_⟩
      exact fetchable_of_replay_entry earlier later written history.sorted_rest imaged follows
        replayed

end Replay

/-- What the disk holds at the crash: each page as some image it had, the header page included,
with a number the log reached. The data file has at least its header page, and nothing is known of
the pages behind its end. -/
structure OnDisk (log : List (Logged (Entry Record) (RecordFile Record))) (bound : Int)
    (fileLength : Nat) (disk : RecordFile Record) : Prop where
  opened : 0 < fileLength
  header : ∃ file ∈ states .create log,
    (disk.header, disk.headerLsn) = (file.header, file.headerLsn)
  headerLsn_le : disk.headerLsn ≤ bound
  pages : ∀ page < fileLength, ∃ file ∈ states .create log, disk.pages page = file.pages page
  lsn_le : ∀ page < fileLength, (disk.pages page).lsn ≤ bound

/-- The recovered file: the same allocation state, every allocated page of the data file in
agreement with the page it stands for, and every record page in the data file. -/
def Recovers (fileLength : Nat) (live recovered : RecordFile Record) : Prop :=
  recovered.header = live.header ∧
    ∀ page : Nat, live.header.checkPageNum page = true →
      (page < fileLength → (live.pages page).Agrees (recovered.pages page)) ∧
        ((live.pages page).header ≠ {} → page < fileLength)

theorem OnDisk.imaged {bound : Int} (history : History (Writes maxPages) 0 .create log file)
    (onDisk : OnDisk log bound fileLength disk) :
    Imaged (upTo bound log) fileLength disk where
  header := by
    obtain ⟨source, member, same⟩ := onDisk.header
    have image := (header_stamps maxPages).image_eq history source member
    have number : disk.headerLsn = source.headerLsn := congrArg Prod.snd same
    rw [stateAt_upTo onDisk.headerLsn_le, same, number]
    exact image
  pages := fun page inside => by
    obtain ⟨source, member, same⟩ := onDisk.pages page inside
    have image := (page_stamps maxPages page).image_eq history source member
    rw [stateAt_upTo (onDisk.lsn_le page inside), same]
    exact image

/-- A page gets its layout from an entry of the record manager. -/
theorem entry_of_layout (history : History (Writes maxPages) 0 .create log file)
    (laid : (file.pages page).header ≠ {}) :
    ∃ logged ∈ log, logged.entry.recordPage? = some page := by
  induction history with
  | start => exact absurd rfl laid
  | @append log state next lsn entry _ _ written ih =>
    by_cases before : (state.pages page).header = {}
    · refine ⟨⟨lsn, entry, next⟩, by simp, ?_⟩
      cases written with
      | @reuse reused free =>
        by_cases same : page = reused
        · exact absurd (by simp [reusePage, same, RecordPage.clear]) laid
        · exact absurd (by simpa [reusePage, same] using before) laid
      | extend room =>
        by_cases same : page = state.header.pageCount
        · exact absurd (by simp [extendPages, same, RecordPage.clear]) laid
        · exact absurd (by simpa [extendPages, same] using before) laid
      | dispose => exact absurd before laid
      | @change format changed =>
        by_cases same : page = changed
        · simp [Entry.recordPage?, same]
        · exact absurd (by simpa [setPage, same] using before) laid
    · obtain ⟨logged, member, about⟩ := ih before
      exact ⟨logged, mem_append_left _ member, about⟩

theorem replay_recovers_iff_fetchable {table : Table} {handler : RecordFileHandler Record}
    (run : Reaches (step table) (fun _ _ => True) .start handler) {bound : Int}
    {fileLength : Nat} {disk : RecordFile Record}
    (onDisk : OnDisk handler.log bound fileLength disk) :
    (∃ recovered,
      disk.replay table.maxPages fileLength (entries (upTo bound handler.log)) = .ok recovered ∧
        Recovers fileLength (stateAt .create handler.log bound) recovered) ↔
      ∀ logged ∈ upTo bound handler.log, Fetchable fileLength disk logged.lsn logged.entry := by
  have logs := logs_of_reaches run
  have history := History.cut logs bound
  have imaged := onDisk.imaged logs
  constructor
  · rintro ⟨recovered, replayed, _⟩
    exact fetchable_of_replay history imaged history [] (append_nil _) replayed
  · intro fetchable
    obtain ⟨recovered, replayed, follows⟩ :=
      replay_follows history imaged history [] (append_nil _) fetchable
    refine ⟨recovered, replayed, ?_, fun page _ => ⟨fun inside => ?_, fun laid => ?_⟩⟩
    · exact ((header_stamps table.maxPages).tracks_end history imaged.header follows.header).1
    · exact (page_stamps table.maxPages page).tracks_end history (imaged.pages page inside)
        (follows.pages page inside)
    · obtain ⟨logged, member, about⟩ := entry_of_layout history laid
      exact (fetchable logged member page about).1

section

variable {table : Table} {handler : RecordFileHandler Record}
  (run : Reaches (step table) (fun _ _ => True) .start handler)
include run

theorem onDisk_of_states {headerFile pageFile : RecordFile Record} (opened : 0 < fileLength)
    (headerMember : headerFile ∈ states .create handler.log)
    (pageMember : pageFile ∈ states .create handler.log) :
    OnDisk handler.log (lastLsn 0 handler.log) fileLength
      { headerFile with pages := pageFile.pages } where
  opened := opened
  header := ⟨headerFile, headerMember, rfl⟩
  headerLsn_le :=
    (header_stamps table.maxPages).le_lastLsn (logs_of_reaches run) headerFile headerMember
  pages := fun _ _ => ⟨pageFile, pageMember, rfl⟩
  lsn_le := fun page _ =>
    (page_stamps table.maxPages page).le_lastLsn (logs_of_reaches run) pageFile pageMember

theorem onDisk_file (opened : 0 < fileLength) :
    OnDisk handler.log (lastLsn 0 handler.log) fileLength handler.file := by
  have last := (logs_of_reaches run).last_mem_states
  exact onDisk_of_states run opened last last

end

def rowTable : Table := ⟨8, .row, 8, []⟩

def insertTwice : List (Action Nat) :=
  [.insert 0 [] 7, .insert 5 [1] 9, .delete 6 ⟨1, 0⟩ false]

theorem insertTwice_runs :
    (run (step rowTable) (fun _ _ => True) .start insertTwice).isSome = true := by
  decide +kernel

def earlyImages : RecordFile Nat :=
  let log := ((run (step rowTable) (fun _ _ => True) .start insertTwice).get
    insertTwice_runs).log
  { stateAt .create log 1 with pages := (stateAt .create log 2).pages }

theorem replay_recovers_early_images :
    ∃ handler, Reaches (step rowTable) (fun _ _ => True) .start handler ∧
      lastLsn 0 handler.log = 7 ∧ earlyImages.headerLsn = 1 ∧ (earlyImages.pages 1).lsn = 2 ∧
      ∃ recovered,
        earlyImages.replay rowTable.maxPages 2
          (entries (upTo (lastLsn 0 handler.log) handler.log)) = .ok recovered ∧
        Recovers 2 (stateAt .create handler.log (lastLsn 0 handler.log)) recovered := by
  have reached := run_get_reaches insertTwice_runs
  refine ⟨_, reached, by decide +kernel, by decide +kernel, by decide +kernel, ?_⟩
  have onDisk := onDisk_of_states reached Nat.two_pos (stateAt_mem_states _ _ 1)
    (stateAt_mem_states _ _ 2)
  refine (replay_recovers_iff_fetchable reached onDisk).mpr ?_
  decide +kernel

def insertAndDelete : List (Action Nat) :=
  [.insert 0 [] 7, .delete 3 ⟨1, 0⟩ false]

theorem insertAndDelete_runs :
    (run (step rowTable) (fun _ _ => True) .start insertAndDelete).isSome = true := by
  decide +kernel

def disposed : RecordFileHandler Nat :=
  (run (step rowTable) (fun _ _ => True) .start insertAndDelete).get insertAndDelete_runs

/-- With everything on disk as it was at the end, the header included, the replay
fails at the second entry: the header no longer allocates its page. -/
theorem replay_fails_on_disposed_page :
    ∃ handler : RecordFileHandler Nat,
      Reaches (step rowTable) (fun _ _ => True) .start handler ∧
      OnDisk handler.log (lastLsn 0 handler.log) 2 handler.file ∧
      ¬∃ recovered,
        handler.file.replay rowTable.maxPages 2
          (entries (upTo (lastLsn 0 handler.log) handler.log)) = .ok recovered ∧
        Recovers 2 (stateAt .create handler.log (lastLsn 0 handler.log)) recovered := by
  have reached := run_get_reaches insertAndDelete_runs
  refine ⟨_, reached, onDisk_file reached Nat.two_pos, ?_⟩
  have failed : (disposed.file.replay rowTable.maxPages 2
      (entries (upTo (lastLsn 0 disposed.log) disposed.log))).isOk = false := by
    decide +kernel
  rintro ⟨recovered, replayed, _⟩
  rw [disposed, replayed] at failed
  cases failed

end CsuDbms.RecordFileModel
