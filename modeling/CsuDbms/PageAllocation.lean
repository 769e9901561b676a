import CsuDbms.BufferPoolHeaderModel
import CsuDbms.TransitionSystem

/-!
# Allocating pages and redoing it

`allocate_page` and `dispose_page` write a log entry and change the header of
the file; redo changes the header by other code. The log entries of one file
are kept here with every image the header page has had, each with the number of
entries written before it. After a crash the file is opened with one of these
images and a prefix of the log.

Numbers of log entries come from the log handler, which gives them upwards.
Contents of other pages are left out.
-/

namespace CsuDbms.PageAllocation

open TransitionSystem BufferPoolHeaderModel List Option Function BPFileHeader

inductive PageOperation where
  | allocate
  | deallocate
  deriving DecidableEq, Repr

structure LogEntry where
  lsn : Int
  operation : PageOperation
  page : Nat
  deriving DecidableEq, Repr

structure Image where
  header : BPFileHeader
  lsn : Int
  entries : Nat

structure Pool where
  header : BPFileHeader
  hdrLsn : Int
  log : List LogEntry
  images : List Image

def Pool.create : Pool := ⟨.create, 0, [], [⟨.create, 0, 0⟩]⟩

def Pool.write (pool : Pool) (entry : LogEntry) (header : BPFileHeader) : Pool where
  header := header
  hdrLsn := entry.lsn
  log := pool.log ++ [entry]
  images := pool.images ++ [⟨header, entry.lsn, pool.log.length + 1⟩]

/-- `lsn` is none if the log entry cannot be appended. Whether there is a frame for the page is
only known when the entry has been written: reusing a page has then changed the header, while
extending the file has not. -/
def allocatePage (pool : Pool) (lsn : Option Int) (framed : Bool) : Except RC Nat × Pool :=
  match pool.header.freePage, lsn with
  | some _, none => (.error .internal, pool)
  | some page, some lsn =>
    (if framed then .ok page else .error .bufferpoolNobuf,
      pool.write ⟨lsn, .allocate, page⟩ (pool.header.reuse page))
  | none, lsn =>
    if maxPageNum ≤ pool.header.pageCount then (.error .bufferpoolNobuf, pool)
    else
      match lsn with
      | none => (.error .internal, pool)
      | some lsn =>
        let entry : LogEntry := ⟨lsn, .allocate, pool.header.pageCount⟩
        if framed then (.ok pool.header.pageCount, pool.write entry pool.header.extend)
        else (.error .bufferpoolNobuf, pool.write entry pool.header)

def disposePage (pool : Pool) (pageNum : Int) (pinned : Bool) (lsn : Option Int) :
    Except RC Unit × Pool :=
  if pageNum = 0 then (.error .internal, pool)
  else if !pool.header.checkPageNum pageNum then (.error .bufferpoolInvalidPageNum, pool)
  else if pinned then (.error .lockedUnlock, pool)
  else
    match lsn with
    | none => (.error .internal, pool)
    | some lsn =>
      (.ok (), pool.write ⟨lsn, .deallocate, pageNum.toNat⟩ (pool.header.dispose pageNum.toNat))

/-- `BufferPoolLogReplayer::replay`, on the header and the number of its page. -/
def redo (page : BPFileHeader × Int) (entry : LogEntry) : Except RC (BPFileHeader × Int) :=
  match entry.operation with
  | .allocate => page.1.redoAllocatePage maxPageNum page.2 entry.lsn entry.page
  | .deallocate => page.1.redoDeallocatePage page.2 entry.lsn entry.page

def replay (entries : List LogEntry) (page : BPFileHeader × Int) :
    Except RC (BPFileHeader × Int) :=
  entries.foldlM redo page

def replayTimes (entries : List LogEntry) : Nat → BPFileHeader × Int →
    Except RC (BPFileHeader × Int)
  | 0, page => .ok page
  | times + 1, page => replay entries page >>= replayTimes entries times

inductive Action where
  | allocatePage (lsn : Option Int) (framed : Bool)
  | disposePage (pageNum : Int) (pinned : Bool) (lsn : Option Int)
  | reopen
  | recover (image entries : Nat)
  deriving DecidableEq, Repr

def Pool.Later (pool : Pool) (lsn : Option Int) : Prop :=
  ∀ number ∈ lsn, 0 < number ∧ ∀ entry ∈ pool.log, entry.lsn < number

instance (pool : Pool) (lsn : Option Int) : Decidable (pool.Later lsn) :=
  inferInstanceAs (Decidable (∀ number ∈ lsn, _))

/-- A crash leaves an image and a prefix of the log that covers it. -/
def recover (pool : Pool) (image entries : Nat) : Option Pool :=
  match pool.images[image]? with
  | none => none
  | some found =>
    if found.entries ≤ entries ∧ entries ≤ pool.log.length then
      match replay (pool.log.take entries) (found.header, found.lsn) with
      | .error _ => none
      | .ok (header, lsn) =>
        some
          { header := header
            hdrLsn := lsn
            log := pool.log.take entries
            images := pool.images.filter (fun older => older.entries ≤ entries) ++
              [⟨header, lsn, entries⟩] }
    else none

def step (pool : Pool) : Action → Option Pool
  | .allocatePage lsn framed =>
    if pool.Later lsn then some (allocatePage pool lsn framed).2 else none
  | .disposePage pageNum pinned lsn =>
    if pool.Later lsn then some (disposePage pool pageNum pinned lsn).2 else none
  | .reopen => some pool
  | .recover image entries => recover pool image entries

/-- The counts of the header are those of its bitmap. -/
structure Sound (header : BPFileHeader) : Prop where
  count : header.allocatedPages =
    ((Finset.range maxPageNum).filter fun page => header.bitmap page = true).card
  bounded : ∀ page, header.bitmap page = true → page < header.pageCount
  capacity : header.pageCount ≤ maxPageNum
  first : header.bitmap 0 = true

/-- There is an image for each prefix of the log, and replaying the prefix over an older one
gives its header. -/
def RedoAgrees (pool : Pool) : Prop :=
  (∀ entries ≤ pool.log.length, ∃ newer ∈ pool.images, newer.entries = entries) ∧
    ∀ older ∈ pool.images, ∀ newer ∈ pool.images, older.entries ≤ newer.entries →
      ∀ times, ∃ lsn, replayTimes (pool.log.take newer.entries) (times + 1)
        (older.header, older.lsn) = .ok (newer.header, lsn)

/-- A file that is extended gets a frame for its new page. -/
def ExtendsFramed (pool : Pool) : Action → Prop
  | .allocatePage lsn framed =>
    framed = true ∨ pool.header.freePage.isSome = true ∨ lsn = none ∨
      maxPageNum ≤ pool.header.pageCount
  | _ => True

instance (pool : Pool) (action : Action) : Decidable (ExtendsFramed pool action) := by
  cases action <;> dsimp only [ExtendsFramed] <;> infer_instance

def LogEntry.apply (header : BPFileHeader) (entry : LogEntry) : BPFileHeader :=
  match entry.operation with
  | .allocate => if entry.page < header.pageCount then header.reuse entry.page else header.extend
  | .deallocate => header.dispose entry.page

def applied (header : BPFileHeader) (entries : List LogEntry) : BPFileHeader :=
  entries.foldl LogEntry.apply header

/-- An entry that fits the header: it takes a clear bit or the page after the last one, or it
clears the bit of a page besides the first. -/
inductive Fits (header : BPFileHeader) : LogEntry → Prop
  | reuse {lsn : Int} {page : Nat} (inside : page < header.pageCount)
      (clear : header.bitmap page = false) : Fits header ⟨lsn, .allocate, page⟩
  | extend {lsn : Int} (room : header.pageCount < maxPageNum) :
      Fits header ⟨lsn, .allocate, header.pageCount⟩
  | dispose {lsn : Int} {page : Nat} (positive : page ≠ 0) (inside : page < header.pageCount)
      (set : header.bitmap page = true) : Fits header ⟨lsn, .deallocate, page⟩

def FitsAll : BPFileHeader → List LogEntry → Prop
  | _, [] => True
  | header, entry :: rest => Fits header entry ∧ FitsAll (entry.apply header) rest

variable {header : BPFileHeader} {lsn : Int} {entry : LogEntry}
  {front entries : List LogEntry}

theorem fits_all_append :
    FitsAll header (front ++ entries) ↔
      FitsAll header front ∧ FitsAll (applied header front) entries := by
  induction front generalizing header with
  | nil => simp [FitsAll, applied]
  | cons first rest ih =>
    simp only [cons_append, FitsAll, ih, and_assoc]
    rfl

theorem applied_append :
    applied header (front ++ entries) = applied (applied header front) entries :=
  foldl_append

variable {page : Nat}

@[simp] theorem apply_reuse (inside : page < header.pageCount) :
    LogEntry.apply header ⟨lsn, .allocate, page⟩ = header.reuse page := if_pos inside

@[simp] theorem apply_extend :
    LogEntry.apply header ⟨lsn, .allocate, header.pageCount⟩ = header.extend :=
  if_neg (Nat.lt_irrefl _)

@[simp] theorem apply_dispose :
    LogEntry.apply header ⟨lsn, .deallocate, page⟩ = header.dispose page := rfl

theorem sound_create : Sound .create where
  count := by
    have first : ((Finset.range maxPageNum).filter fun page =>
        create.bitmap page = true) = {0} := by
      ext page
      simp only [create, Finset.mem_filter, Finset.mem_range, decide_eq_true_eq,
        Finset.mem_singleton]
      refine ⟨And.right, ?_⟩
      rintro rfl
      exact ⟨by decide, rfl⟩
    rw [first]
    rfl
  bounded := fun page set => by
    obtain rfl : page = 0 := of_decide_eq_true set
    exact Nat.zero_lt_one
  capacity := by decide
  first := rfl

theorem set_pages_set {capacity : Nat} (clear : header.bitmap page = false)
    (inside : page < capacity) :
    ((Finset.range capacity).filter fun other =>
        update header.bitmap page true other = true).card =
      ((Finset.range capacity).filter fun other => header.bitmap other = true).card + 1 := by
  have absent : page ∉ (Finset.range capacity).filter fun other => header.bitmap other = true := by
    simp [clear]
  rw [← Finset.card_insert_of_notMem absent]
  congr 1
  ext other
  by_cases same : other = page
  · simp [same, inside]
  · simp [same]

theorem set_pages_clear {capacity : Nat} (set : header.bitmap page = true)
    (inside : page < capacity) :
    ((Finset.range capacity).filter fun other =>
        update header.bitmap page false other = true).card + 1 =
      ((Finset.range capacity).filter fun other => header.bitmap other = true).card := by
  have cleared := @set_pages_set (header.dispose page) page capacity
    (by simp [dispose]) inside
  have restored : update (header.dispose page).bitmap page true = header.bitmap := by
    simp only [dispose, update_idem]
    exact update_eq_self_iff.mpr set.symm
  rw [restored] at cleared
  exact cleared.symm

theorem sound_apply (sound : Sound header) (fits : Fits header entry) :
    Sound (entry.apply header) := by
  cases fits with
  | @reuse number page inside clear =>
    rw [apply_reuse inside]
    have within := inside.trans_le sound.capacity
    refine ⟨?_, ?_, sound.capacity, ?_⟩
    · simp only [reuse, set_pages_set clear within, sound.count]
      omega
    · intro other set
      by_cases same : other = page
      · exact same ▸ inside
      · exact sound.bounded other (by simpa [reuse, same] using set)
    · simp [reuse, update_apply, sound.first]
  | @extend number room =>
    rw [apply_extend]
    have clear : header.bitmap header.pageCount = false := by
      rw [← Bool.not_eq_true]
      exact fun set => Nat.lt_irrefl _ (sound.bounded _ set)
    refine ⟨?_, ?_, room, ?_⟩
    · simp only [BPFileHeader.extend, set_pages_set clear room, sound.count]
      omega
    · intro other set
      by_cases same : other = header.pageCount
      · exact same ▸ Nat.lt_succ_self _
      · have before := sound.bounded other (by simpa [BPFileHeader.extend, same] using set)
        exact before.trans (Nat.lt_succ_self _)
    · simp [BPFileHeader.extend, update_apply, sound.first]
  | @dispose number page positive inside set =>
    rw [apply_dispose]
    have fewer := set_pages_clear set (inside.trans_le sound.capacity)
    refine ⟨?_, ?_, sound.capacity, ?_⟩
    · simp only [dispose, sound.count]
      omega
    · intro other still
      by_cases same : other = page
      · exact same ▸ inside
      · exact sound.bounded other (by simpa [dispose, same] using still)
    · simp [dispose, update_of_ne positive.symm, sound.first]

theorem sound_applied (sound : Sound header) (fits : FitsAll header entries) :
    Sound (applied header entries) := by
  induction entries generalizing header with
  | nil => exact sound
  | cons first rest ih => exact ih (sound_apply sound fits.1) fits.2

/-- Redo of the entry changes nothing: the header page is newer, or the page is still
allocated. The second case is there because redo of a reused page leaves the number of the
header as it was. -/
def Covered (header : BPFileHeader) (lsn : Int) (entry : LogEntry) : Prop :=
  entry.lsn ≤ lsn ∨
    entry.operation = .allocate ∧ entry.page < header.pageCount ∧
      header.bitmap entry.page = true

theorem redo_covered (covered : Covered header lsn entry) :
    redo (header, lsn) entry = .ok (header, lsn) := by
  obtain ⟨number, operation, page⟩ := entry
  rcases covered with older | ⟨allocates, inside, set⟩
  · cases operation with
    | allocate => exact if_pos older
    | deallocate => exact if_pos older
  · cases allocates
    simp only [redo, redoAllocatePage]
    rw [if_pos inside, if_pos set, ite_self]

theorem replay_covered (covered : ∀ entry ∈ entries, Covered header lsn entry) :
    replay entries (header, lsn) = .ok (header, lsn) := by
  induction entries with
  | nil => rfl
  | cons first rest ih =>
    have first_covered := redo_covered (covered first mem_cons_self)
    have rest_covered := ih fun entry member => covered entry (mem_cons_of_mem _ member)
    simp only [replay, foldlM_cons, first_covered]
    exact rest_covered

theorem replay_append (page : BPFileHeader × Int) :
    replay (front ++ entries) page = replay front page >>= replay entries :=
  foldlM_append

theorem redo_fits (fits : Fits header entry) (newer : lsn < entry.lsn)
    (covered : ∀ earlier ∈ front, Covered header lsn earlier)
    (sorted : ∀ earlier ∈ front, earlier.lsn < entry.lsn) :
    ∃ next, redo (header, lsn) entry = .ok (entry.apply header, next) ∧ next ≤ entry.lsn ∧
      ∀ earlier ∈ front ++ [entry], Covered (entry.apply header) next earlier := by
  have redone : ¬ entry.lsn ≤ lsn := not_le.mpr newer
  have older : ∀ earlier ∈ front ++ [entry], earlier.lsn ≤ entry.lsn := forall_mem_append.mpr
    ⟨fun earlier before => (sorted earlier before).le, forall_mem_singleton.mpr le_rfl⟩
  cases fits with
  | @reuse number page inside clear =>
    refine ⟨lsn, ?_, newer.le, ?_⟩
    · simp [redo, redoAllocatePage, redone, inside, clear]
    · rw [apply_reuse inside]
      refine forall_mem_append.mpr ⟨fun earlier before => ?_, forall_mem_singleton.mpr ?_⟩
      · refine (covered earlier before).imp id fun allocated => ?_
        refine ⟨allocated.1, allocated.2.1, ?_⟩
        simp [reuse, update_apply, allocated.2.2]
      · exact .inr ⟨rfl, inside, by simp [reuse]⟩
  | @extend number room =>
    refine ⟨number, ?_, le_rfl, fun earlier member => .inl (older earlier member)⟩
    simp [redo, redoAllocatePage, redone, Nat.not_le.mpr room]
  | @dispose number page positive inside set =>
    refine ⟨number, ?_, le_rfl, fun earlier member => .inl (older earlier member)⟩
    simp [redo, redoDeallocatePage, redone, Nat.not_le.mpr inside, set]

/-- The same for all entries after an image; the induction is on them, and `front` grows. -/
theorem replay_fits (fits : FitsAll header entries) (newer : ∀ entry ∈ entries, lsn < entry.lsn)
    (covered : ∀ earlier ∈ front, Covered header lsn earlier)
    (sorted : (front ++ entries).Pairwise fun earlier later => earlier.lsn < later.lsn) :
    ∃ last, replay entries (header, lsn) = .ok (applied header entries, last) ∧
      (∀ bound, lsn < bound → (∀ entry ∈ entries, entry.lsn < bound) → last < bound) ∧
      ∀ earlier ∈ front ++ entries, Covered (applied header entries) last earlier := by
  induction entries generalizing header lsn front with
  | nil =>
    refine ⟨lsn, rfl, fun _ below _ => below, ?_⟩
    rw [append_nil]
    exact covered
  | cons entry rest ih =>
    obtain ⟨_, tail_sorted, apart⟩ := pairwise_append.mp sorted
    obtain ⟨next, redone, bounded, next_covered⟩ := redo_fits fits.1
      (newer entry mem_cons_self) covered
      (fun earlier member => apart earlier member entry mem_cons_self)
    have later : ∀ other ∈ rest, next < other.lsn := fun other member =>
      bounded.trans_lt (rel_of_pairwise_cons tail_sorted member)
    obtain ⟨last, replayed, below, all_covered⟩ := ih fits.2 later next_covered
      (by simpa using sorted)
    refine ⟨last, ?_, ?_, ?_⟩
    · simp only [replay, foldlM_cons, redone]
      exact replayed
    · intro bound _ above
      refine below bound (bounded.trans_lt (above entry mem_cons_self)) ?_
      exact fun other member => above other (mem_cons_of_mem _ member)
    · rw [append_cons]
      exact all_covered

structure ImageOf (log : List LogEntry) (image : Image) : Prop where
  header : image.header = applied .create (log.take image.entries)
  covered : ∀ entry ∈ log.take image.entries, Covered image.header image.lsn entry
  bounded : ∀ bound, 0 < bound → (∀ entry ∈ log.take image.entries, entry.lsn < bound) →
    image.lsn < bound

structure Tracked (pool : Pool) : Prop where
  sorted : pool.log.Pairwise fun earlier later => earlier.lsn < later.lsn
  positive : ∀ entry ∈ pool.log, 0 < entry.lsn
  fits : FitsAll .create pool.log
  current : pool.header = applied .create pool.log
  within : ∀ image ∈ pool.images, image.entries ≤ pool.log.length
  images : ∀ image ∈ pool.images, ImageOf pool.log image
  every : ∀ entries ≤ pool.log.length, ∃ image ∈ pool.images, image.entries = entries

variable {pool next : Pool}

theorem tracked_create : Tracked .create where
  sorted := .nil
  positive := nofun
  fits := trivial
  current := rfl
  within := forall_mem_singleton.mpr le_rfl
  images := forall_mem_singleton.mpr ⟨rfl, nofun, fun _ positive _ => positive⟩
  every := fun _ none => ⟨_, mem_singleton.mpr rfl, (Nat.le_zero.mp none).symm⟩

theorem tracked_sound (tracked : Tracked pool) : Sound pool.header := by
  rw [tracked.current]
  exact sound_applied sound_create tracked.fits

theorem image_of_append {log rest : List LogEntry} {image : Image}
    (within : image.entries ≤ log.length) (of_log : ImageOf log image) :
    ImageOf (log ++ rest) image := by
  have same : (log ++ rest).take image.entries = log.take image.entries :=
    take_append_of_le_length within
  exact ⟨same ▸ of_log.header, same ▸ of_log.covered, same ▸ of_log.bounded⟩

section

variable (tracked : Tracked pool)
include tracked

theorem tracked_write (fits : Fits pool.header entry) (positive : 0 < entry.lsn)
    (later : ∀ earlier ∈ pool.log, earlier.lsn < entry.lsn) :
    Tracked (pool.write entry (entry.apply pool.header)) := by
  have whole : (pool.log ++ [entry]).take (pool.log.length + 1) = pool.log ++ [entry] :=
    take_of_length_le (by simp)
  have header : entry.apply pool.header = applied .create (pool.log ++ [entry]) := by
    rw [applied_append, ← tracked.current]
    rfl
  refine ⟨?_, ?_, ?_, header, ?_, ?_, ?_⟩
  · refine pairwise_append.mpr ⟨tracked.sorted, pairwise_singleton _ _, ?_⟩
    exact fun earlier member => forall_mem_singleton.mpr (later earlier member)
  · exact forall_mem_append.mpr ⟨tracked.positive, forall_mem_singleton.mpr positive⟩
  · refine fits_all_append.mpr ⟨tracked.fits, ?_, trivial⟩
    rw [← tracked.current]
    exact fits
  · refine forall_mem_append.mpr ⟨fun image before => ?_, by simp [Pool.write]⟩
    exact (tracked.within image before).trans (by simp [Pool.write])
  · refine forall_mem_append.mpr ⟨fun image before => ?_, forall_mem_singleton.mpr ?_⟩
    · exact image_of_append (tracked.within image before) (tracked.images image before)
    · refine ⟨header.trans (congrArg _ whole.symm), ?_, ?_⟩
      · intro other listed
        refine .inl ?_
        rcases mem_append.mp (whole ▸ listed) with before | last
        · exact (later other before).le
        · exact (congrArg LogEntry.lsn (mem_singleton.mp last)).le
      · intro bound _ above
        exact above entry (whole.symm ▸ mem_append_right _ (mem_singleton.mpr rfl))
  · intro entries bound
    have size : (pool.write entry (entry.apply pool.header)).log.length = pool.log.length + 1 := by
      simp [Pool.write]
    rcases Nat.lt_or_eq_of_le (size ▸ bound) with earlier | last
    · obtain ⟨image, member, counted⟩ := tracked.every entries (Nat.lt_succ_iff.mp earlier)
      exact ⟨image, mem_append_left _ member, counted⟩
    · exact ⟨_, mem_append_right _ (mem_singleton.mpr rfl), last.symm⟩

theorem replay_image {image : Image} {entries : Nat} (member : image ∈ pool.images)
    (older : image.entries ≤ entries) :
    ∃ last, replay (pool.log.take entries) (image.header, image.lsn) =
        .ok (applied .create (pool.log.take entries), last) ∧
      ImageOf pool.log ⟨applied .create (pool.log.take entries), last, entries⟩ := by
  obtain ⟨header, covered, bounded⟩ := tracked.images image member
  -- The entries the image has seen, and those it has not.
  let seen := pool.log.take image.entries
  let unseen := (pool.log.take entries).drop image.entries
  have split : seen ++ unseen = pool.log.take entries := by
    have same : seen = (pool.log.take entries).take image.entries := by
      rw [take_take, Nat.min_eq_left older]
    rw [same]
    exact take_append_drop _ _
  have sorted : (seen ++ unseen).Pairwise fun earlier later => earlier.lsn < later.lsn := by
    rw [split]
    exact tracked.sorted.sublist (take_sublist _ _)
  have fits : FitsAll .create (seen ++ unseen) := by
    have all := tracked.fits
    rw [← take_append_drop entries pool.log] at all
    rw [split]
    exact (fits_all_append.mp all).1
  have ahead : ∀ entry ∈ unseen, image.lsn < entry.lsn := by
    intro entry listed
    have logged : entry ∈ pool.log :=
      mem_of_mem_take (split ▸ mem_append_right seen listed)
    refine bounded _ (tracked.positive entry logged) ?_
    exact fun earlier before => (pairwise_append.mp sorted).2.2 earlier before entry listed
  have unseen_fits : FitsAll image.header unseen := by
    rw [header]
    exact (fits_all_append.mp fits).2
  obtain ⟨last, replayed, below, all_covered⟩ := replay_fits unseen_fits ahead covered sorted
  have result : applied image.header unseen = applied .create (pool.log.take entries) := by
    rw [header, ← applied_append, split]
  rw [result] at replayed all_covered
  refine ⟨last, ?_, rfl, ?_, ?_⟩
  · rw [← split, replay_append, replay_covered covered, split]
    exact replayed
  · exact fun entry listed => all_covered entry (split.symm ▸ listed)
  · intro bound positive above
    have listed : ∀ entry ∈ seen ++ unseen, entry.lsn < bound := split.symm ▸ above
    refine below bound (bounded bound positive fun entry before => ?_) fun entry after => ?_
    · exact listed entry (mem_append_left _ before)
    · exact listed entry (mem_append_right _ after)

theorem tracked_recover {image entries : Nat} (recovered : recover pool image entries = some next) :
    Tracked next := by
  unfold recover at recovered
  split at recovered
  · cases recovered
  next found at_image =>
    obtain ⟨⟨older, within⟩, opened⟩ := ite_none_right_eq_some.mp recovered
    obtain ⟨last, replayed, of_log⟩ :=
      replay_image tracked (mem_of_getElem? at_image) older
    rw [replayed] at opened
    cases opened
    have size : (pool.log.take entries).length = entries := length_take_of_le within
    have kept : ∀ image, image.entries ≤ entries → ImageOf pool.log image →
        ImageOf (pool.log.take entries) image := by
      intro image fewer of_whole
      have same : (pool.log.take entries).take image.entries = pool.log.take image.entries := by
        rw [take_take, Nat.min_eq_left fewer]
      exact ⟨same ▸ of_whole.header, same ▸ of_whole.covered, same ▸ of_whole.bounded⟩
    refine ⟨?_, ?_, ?_, rfl, ?_, ?_, ?_⟩
    · exact tracked.sorted.sublist (take_sublist _ _)
    · exact fun entry member => tracked.positive entry (mem_of_mem_take member)
    · have all := tracked.fits
      rw [← take_append_drop entries pool.log] at all
      exact (fits_all_append.mp all).1
    · refine forall_mem_append.mpr ⟨fun other before => ?_, forall_mem_singleton.mpr size.ge⟩
      exact size.symm ▸ of_decide_eq_true (mem_filter.mp before).2
    · refine forall_mem_append.mpr ⟨fun other before => ?_, forall_mem_singleton.mpr ?_⟩
      · obtain ⟨listed, fewer⟩ := mem_filter.mp before
        exact kept other (of_decide_eq_true fewer) (tracked.images other listed)
      · exact kept _ le_rfl of_log
    · intro count bound
      rw [size] at bound
      obtain ⟨other, listed, counted⟩ := tracked.every count (bound.trans within)
      refine ⟨other, mem_append_left _ (mem_filter.mpr ⟨listed, ?_⟩), counted⟩
      exact decide_eq_true (counted.symm ▸ bound)

theorem tracked_step {action : Action} (met : ExtendsFramed pool action)
    (taken : step pool action = some next) : Tracked next := by
  cases action with
  | allocatePage lsn framed =>
    obtain ⟨later, ⟨⟩⟩ := ite_none_right_eq_some.mp taken
    unfold allocatePage
    split
    · exact tracked
    · rename_i page number free
      obtain ⟨inside, clear⟩ := freePage_eq_some free
      obtain ⟨positive, above⟩ := later number rfl
      rw [← @apply_reuse pool.header number page inside]
      exact tracked_write tracked (.reuse inside clear) positive above
    rename_i free
    split
    · exact tracked
    rename_i room
    split
    · exact tracked
    rename_i number
    have has_frame : framed = true := by simpa [ExtendsFramed, free, room] using met
    obtain ⟨positive, above⟩ := later number rfl
    simp only [has_frame, if_true]
    rw [← @apply_extend pool.header number]
    exact tracked_write tracked (.extend (Nat.not_le.mp room)) positive above
  | disposePage pageNum pinned lsn =>
    obtain ⟨later, ⟨⟩⟩ := ite_none_right_eq_some.mp taken
    unfold disposePage
    split
    · exact tracked
    split
    · exact tracked
    rename_i invalid
    split
    · exact tracked
    cases lsn with
    | none => exact tracked
    | some number =>
      obtain ⟨positive, above⟩ := later number rfl
      have valid : pool.header.checkPageNum pageNum = true := by simpa using invalid
      obtain ⟨lower, upper, set⟩ := of_decide_eq_true valid
      refine tracked_write tracked (.dispose ?_ ?_ set) positive above
      · omega
      · omega
  | reopen =>
    cases taken
    exact tracked
  | recover image entries => exact tracked_recover tracked taken

end

theorem replay_times_covered (covered : ∀ entry ∈ entries, Covered header lsn entry)
    (times : Nat) : replayTimes entries times (header, lsn) = .ok (header, lsn) := by
  induction times with
  | zero => rfl
  | succ times ih =>
    simp only [replayTimes, replay_covered covered]
    exact ih

theorem tracked_redo_agrees (tracked : Tracked pool) : RedoAgrees pool := by
  refine ⟨tracked.every, ?_⟩
  intro older older_listed newer newer_listed fewer times
  obtain ⟨last, replayed, of_log⟩ := replay_image tracked older_listed fewer
  refine ⟨last, ?_⟩
  rw [(tracked.images newer newer_listed).header]
  simp only [replayTimes, replayed]
  exact replay_times_covered of_log.covered times

theorem allocate_page_fresh {lsn : Option Int} {framed : Bool} (sound : Sound pool.header)
    (returned : (allocatePage pool lsn framed).1 = .ok page) :
    pool.header.bitmap page = false := by
  unfold allocatePage at returned
  split at returned
  · cases returned
  next number free =>
    split at returned
    · cases returned
      exact (freePage_eq_some free).2
    · cases returned
  · split at returned
    · cases returned
    · split at returned
      · cases returned
      · split at returned
        · cases returned
          rw [← Bool.not_eq_true]
          exact fun set => Nat.lt_irrefl _ (sound.bounded _ set)
        · cases returned

theorem framed_allocation_is_redone (ran : Reaches step ExtendsFramed Pool.create pool) :
    Sound pool.header ∧
      (∀ lsn framed page, (allocatePage pool lsn framed).1 = .ok page →
        pool.header.bitmap page = false) ∧
      RedoAgrees pool := by
  have tracked : Tracked pool :=
    reaches_invariant Tracked (fun _ _ _ tracked => tracked_step tracked) tracked_create ran
  have sound := tracked_sound tracked
  exact ⟨sound, fun _ _ _ => allocate_page_fresh sound, tracked_redo_agrees tracked⟩

def reuseAndCrash : List Action :=
  [.allocatePage (some 1) true, .allocatePage (some 2) true, .disposePage 1 false (some 3),
    .allocatePage (some 4) true, .recover 0 4, .reopen]

theorem reuse_and_crash_runs :
    (run step ExtendsFramed Pool.create reuseAndCrash).isSome = true := by
  decide +kernel

theorem framed_allocation_is_redone_after_crash :
    ∃ pool, Reaches step ExtendsFramed Pool.create pool ∧ pool.hdrLsn = 3 ∧
      Sound pool.header ∧
      (∀ lsn framed page, (allocatePage pool lsn framed).1 = .ok page →
        pool.header.bitmap page = false) ∧
      RedoAgrees pool :=
  ⟨_, run_get_reaches reuse_and_crash_runs, by decide +kernel,
    framed_allocation_is_redone (run_get_reaches reuse_and_crash_runs)⟩

def AnyAction (_ : Pool) (_ : Action) : Prop := True

/-- The entry is in the log, and the header has not been changed; redo changes it. -/
theorem unframed_extension_is_redone :
    ¬ ∀ pool, Reaches step AnyAction Pool.create pool →
      Sound pool.header ∧
        (∀ lsn framed page, (allocatePage pool lsn framed).1 = .ok page →
          pool.header.bitmap page = false) ∧
        RedoAgrees pool := by
  intro always
  have reached : Reaches step AnyAction Pool.create
      (Pool.create.write ⟨1, .allocate, 1⟩ .create) := by
    refine .tail .refl trivial (?_ : step Pool.create (.allocatePage (some 1) false) = _)
    rfl
  obtain ⟨_, _, _, redone⟩ := always _ reached
  obtain ⟨lsn, replayed⟩ := redone ⟨.create, 0, 0⟩ (by simp [Pool.write, Pool.create])
    ⟨.create, 1, 1⟩ (by simp [Pool.write, Pool.create]) (Nat.zero_le _) 0
  have extended : replayTimes [⟨1, .allocate, 1⟩] 1 (.create, 0) =
      .ok (create.extend, 1) := rfl
  have same := Except.ok.inj (extended.symm.trans replayed)
  have counts : 2 = 1 := congrArg (fun page => page.1.pageCount) same
  exact absurd counts (by decide)

end CsuDbms.PageAllocation
