import Mathlib

/-!
# Redo logs and page images

A log is a list of entries with sequence numbers that increase from a base on, each kept with
the state right after it was written. An object is a part of the state that carries
the number of the last entry that changed it. Two things follow that do not
depend on the system: an image of an object is the object as it was after
exactly the entries up to the image's own number, and a replay that skips what
the number already covers brings every object to the end of the log, whatever
image it started from.
-/

namespace CsuDbms.RedoLog

open List

structure Logged (Entry State : Type*) where
  lsn : Int
  entry : Entry
  after : State

variable {Entry State Value : Type*}

/-- The last number of the log, or the base that the numbers start from. -/
def lastLsn (base : Int) (log : List (Logged Entry State)) : Int :=
  (log.getLast?.map Logged.lsn).getD base

def upTo (bound : Int) (log : List (Logged Entry State)) : List (Logged Entry State) :=
  log.filter fun logged => logged.lsn ≤ bound

/-- The state after exactly the entries numbered up to `bound`. -/
def stateAt (initial : State) (log : List (Logged Entry State)) (bound : Int) : State :=
  ((upTo bound log).getLast?.map Logged.after).getD initial

def states (initial : State) (log : List (Logged Entry State)) : List State :=
  initial :: log.map Logged.after

/-- Logs whose entries are numbered upwards and lead from state to state. -/
inductive History (writes : State → Int → Entry → State → Prop) (base : Int) (initial : State) :
    List (Logged Entry State) → State → Prop
  | start : History writes base initial [] initial
  | append {log : List (Logged Entry State)} {state next : State} {lsn : Int} {entry : Entry}
      (earlier : History writes base initial log state) (later : lastLsn base log < lsn)
      (written : writes state lsn entry next) :
      History writes base initial (log ++ [⟨lsn, entry, next⟩]) next

@[simp] theorem lastLsn_append (base : Int) (log : List (Logged Entry State))
    (logged : Logged Entry State) : lastLsn base (log ++ [logged]) = logged.lsn := by
  simp [lastLsn]

variable {state : State} {log : List (Logged Entry State)} {initial : State} {base : Int}

theorem mem_states_append {logged : Logged Entry State} :
    state ∈ states initial (log ++ [logged]) ↔
      state ∈ states initial log ∨ state = logged.after := by
  simp [states, or_assoc]

theorem stateAt_mem_states (initial : State) (log : List (Logged Entry State)) (bound : Int) :
    stateAt initial log bound ∈ states initial log := by
  unfold stateAt
  cases last : (upTo bound log).getLast? with
  | none => simp [states]
  | some logged =>
    have member : logged ∈ log := mem_of_mem_filter (mem_of_getLast? last)
    exact mem_cons_of_mem _ (mem_map_of_mem member)

variable {bound : Int} {rest : List (Logged Entry State)}

theorem upTo_append_of_later (later : ∀ logged ∈ rest, bound < logged.lsn) :
    upTo bound (log ++ rest) = upTo bound log := by
  have none : upTo bound rest = [] := by
    simpa [upTo] using later
  simp only [upTo] at none ⊢
  rw [filter_append, none, append_nil]

theorem stateAt_append_of_later (later : ∀ logged ∈ rest, bound < logged.lsn) :
    stateAt initial (log ++ rest) bound = stateAt initial log bound := by
  simp only [stateAt, upTo_append_of_later later]

theorem stateAt_upTo {limit : Int} (within : bound ≤ limit) :
    stateAt initial (upTo limit log) bound = stateAt initial log bound := by
  have cut : upTo bound (upTo limit log) = upTo bound log := by
    unfold upTo
    rw [filter_filter]
    refine filter_congr fun logged _ => ?_
    by_cases early : logged.lsn ≤ bound
    · simp [early, early.trans within]
    · simp [early]
  simp only [stateAt, cut]

def entries (log : List (Logged Entry State)) : List (Int × Entry) :=
  log.map fun logged => (logged.lsn, logged.entry)

@[simp] theorem entries_append (log : List (Logged Entry State)) (logged : Logged Entry State) :
    entries (log ++ [logged]) = entries log ++ [(logged.lsn, logged.entry)] := by
  simp [entries]

section Histories

variable {writes : State → Int → Entry → State → Prop}

section

variable (history : History writes base initial log state)
include history

theorem History.base_le_lastLsn : base ≤ lastLsn base log := by
  induction history with
  | start => exact le_refl base
  | append _ later _ ih => simpa using (ih.trans_lt later).le

theorem History.le_lastLsn :
    ∀ logged ∈ log, logged.lsn ≤ lastLsn base log := by
  induction history with
  | start => simp
  | append _ later _ ih =>
    rw [lastLsn_append]
    refine forall_mem_append.mpr ⟨fun logged old => ?_, forall_mem_singleton.mpr (le_refl _)⟩
    exact (ih logged old).trans later.le

theorem History.base_lt : ∀ logged ∈ log, base < logged.lsn := by
  induction history with
  | start => simp
  | append earlier later _ ih =>
    refine forall_mem_append.mpr ⟨ih, forall_mem_singleton.mpr ?_⟩
    exact earlier.base_le_lastLsn.trans_lt later

theorem History.sorted :
    log.Pairwise fun first second => first.lsn < second.lsn := by
  induction history with
  | start => exact .nil
  | append earlier later _ ih =>
    refine pairwise_append.mpr ⟨ih, pairwise_singleton _ _, ?_⟩
    intro first member second new
    rw [mem_singleton.mp new]
    exact (earlier.le_lastLsn first member).trans_lt later

end

theorem History.sorted_rest {logged : Logged Entry State}
    (history : History writes base initial (log ++ logged :: rest) state) :
    ∀ other ∈ rest, logged.lsn < other.lsn :=
  (pairwise_cons.mp (pairwise_append.mp history.sorted).2.1).1

section

variable (history : History writes base initial log state)
include history

theorem History.last_mem_states : state ∈ states initial log := by
  cases history with
  | start => simp [states]
  | append _ _ _ => exact mem_states_append.mpr (.inr rfl)

theorem History.upTo_eq (covered : lastLsn base log ≤ bound) :
    upTo bound log = log := by
  refine filter_eq_self.mpr fun logged member => ?_
  exact decide_eq_true ((history.le_lastLsn logged member).trans covered)

theorem History.stateAt_eq (covered : lastLsn base log ≤ bound) :
    stateAt initial log bound = state := by
  rw [stateAt, history.upTo_eq covered]
  cases history with
  | start => rfl
  | append _ _ _ => simp

theorem History.cut (bound : Int) :
    History writes base initial (upTo bound log) (stateAt initial log bound) := by
  induction history with
  | start => exact .start
  | append earlier later written ih =>
    rename_i log state next lsn entry
    have whole : History writes base initial (log ++ [⟨lsn, entry, next⟩]) next :=
      .append earlier later written
    by_cases covered : lsn ≤ bound
    · rw [whole.upTo_eq (by simpa using covered), whole.stateAt_eq (by simpa using covered)]
      exact whole
    · have beyond : ∀ logged ∈ [(⟨lsn, entry, next⟩ : Logged Entry State)],
          bound < logged.lsn := by
        simpa using covered
      rw [upTo_append_of_later beyond, stateAt_append_of_later beyond]
      exact ih

end

end Histories

/-- Each entry leaves the object as it was, or as it was at the start, or stamps
it with its own number. -/
structure Stamps (writes : State → Int → Entry → State → Prop) (base : Int) (initial : State)
    (read : State → Value) (stamp : Value → Int) : Prop where
  fresh : stamp (read initial) ≤ base
  stamped : ∀ {state lsn entry next}, writes state lsn entry next →
    read next = read state ∨ read next = read initial ∨ stamp (read next) = lsn

section Images

variable {writes : State → Int → Entry → State → Prop} {read : State → Value} {stamp : Value → Int}
  {last : State}

theorem Stamps.le_lastLsn (stamps : Stamps writes base initial read stamp)
    (history : History writes base initial log last) :
    ∀ state ∈ states initial log, stamp (read state) ≤ lastLsn base log := by
  induction history with
  | start => simpa [states, lastLsn] using stamps.fresh
  | append earlier later written ih =>
    intro state member
    rw [lastLsn_append]
    rcases mem_states_append.mp member with old | rfl
    · exact (ih state old).trans later.le
    · rcases stamps.stamped written with same | fresh | stamped
      · rw [same]
        exact (ih _ earlier.last_mem_states).trans later.le
      · rw [fresh]
        exact stamps.fresh.trans (earlier.base_le_lastLsn.trans later.le)
      · exact stamped.le

theorem Stamps.image_eq (stamps : Stamps writes base initial read stamp)
    (history : History writes base initial log last) :
    ∀ state ∈ states initial log,
      read state = read (stateAt initial log (stamp (read state))) := by
  induction history with
  | start => simp [states, stateAt, upTo]
  | append earlier later written ih =>
    rename_i log before next lsn entry
    have old : ∀ state ∈ states initial log,
        read state = read (stateAt initial (log ++ [⟨lsn, entry, next⟩])
          (stamp (read state))) := by
      intro state member
      have bounded := (stamps.le_lastLsn earlier state member).trans_lt later
      rw [stateAt_append_of_later (by simpa using bounded)]
      exact ih state member
    have whole : History writes base initial (log ++ [⟨lsn, entry, next⟩]) next :=
      .append earlier later written
    intro state member
    rcases mem_states_append.mp member with known | rfl
    · exact old state known
    · rcases stamps.stamped written with same | fresh | stamped
      · rw [same]
        exact old before earlier.last_mem_states
      · rw [fresh]
        exact old initial (by simp [states])
      · rw [stamped, whole.stateAt_eq (by simp)]

/-- An object during replay: untouched until the log passes the number of its
image, and from then on in step with the state the log had reached. -/
def Tracks (stamp : Value → Int) (agrees : Value → Value → Prop) (image : Value)
    (reached : Int) (live current : Value) : Prop :=
  if reached < stamp image then current = image else agrees live current

variable {agrees : Value → Value → Prop}

theorem Stamps.tracks_start (_stamps : Stamps writes base initial read stamp)
    (refl : ∀ value, agrees value value)
    (history : History writes base initial log last) {image : Value}
    (imaged : image = read (stateAt initial log (stamp image))) :
    Tracks stamp agrees image base (read initial) image := by
  unfold Tracks
  split
  · rfl
  · rename_i unwritten
    have nothing : ∀ logged ∈ log, stamp image < logged.lsn := by
      intro logged member
      exact (not_lt.mp unwritten).trans_lt (history.base_lt logged member)
    rw [← nil_append log, stateAt_append_of_later nothing] at imaged
    rw [imaged]
    exact refl _

section Step

variable {next : State} {lsn : Int} {entry : Entry} {image current redone : Value}

section

variable (stamps : Stamps writes base initial read stamp)
include stamps

section

variable (earlier : History writes base initial log state) (sorted : ∀ logged ∈ rest, lsn < logged.lsn)
  (imaged : image = read (stateAt initial (log ++ ⟨lsn, entry, next⟩ :: rest) (stamp image)))
include earlier sorted imaged

theorem Stamps.image_covers (newer : lastLsn base log < stamp image) : lsn ≤ stamp image := by
  by_contra! before
  have later : ∀ logged ∈ (⟨lsn, entry, next⟩ :: rest : List (Logged Entry State)),
      stamp image < logged.lsn :=
    forall_mem_cons.mpr ⟨before, fun logged member => before.trans (sorted logged member)⟩
  rw [stateAt_append_of_later later, earlier.stateAt_eq newer.le] at imaged
  have bounded := stamps.le_lastLsn earlier state earlier.last_mem_states
  rw [← imaged] at bounded
  exact absurd newer bounded.not_gt

theorem Stamps.tracks_agrees (tracks : Tracks stamp agrees image (lastLsn base log) (read state) current)
    (older : ¬lsn ≤ stamp current) : agrees (read state) current := by
  unfold Tracks at tracks
  split at tracks
  · rename_i newer
    have covers := stamps.image_covers earlier sorted imaged newer
    exact absurd (tracks ▸ covers) older
  · exact tracks

end

theorem Stamps.tracks_step (refl : ∀ value, agrees value value)
    (earlier : History writes base initial log state) (later : lastLsn base log < lsn)
    (written : writes state lsn entry next) (sorted : ∀ logged ∈ rest, lsn < logged.lsn)
    (imaged : image =
      read (stateAt initial (log ++ ⟨lsn, entry, next⟩ :: rest) (stamp image)))
    (tracks : Tracks stamp agrees image (lastLsn base log) (read state) current)
    (skipped : lsn ≤ stamp current → redone = current)
    (applied : agrees (read state) current → agrees (read next) redone) :
    Tracks stamp agrees image lsn (read next) redone := by
  unfold Tracks at tracks ⊢
  by_cases newer : lastLsn base log < stamp image
  · rw [if_pos newer] at tracks
    have covers := stamps.image_covers earlier sorted imaged newer
    rw [skipped (tracks ▸ covers), tracks]
    split
    · rfl
    · rename_i reached
      have same : stamp image = lsn := covers.antisymm' (not_lt.mp reached)
      have whole : History writes base initial (log ++ [⟨lsn, entry, next⟩]) next :=
        .append earlier later written
      rw [same, append_cons, stateAt_append_of_later sorted,
        whole.stateAt_eq (by simp)] at imaged
      rw [imaged]
      exact refl _
  · rw [if_neg newer] at tracks
    rw [if_neg (not_lt.mpr ((not_lt.mp newer).trans later.le))]
    exact applied tracks

end

end Step

theorem Stamps.tracks_end (stamps : Stamps writes base initial read stamp)
    (history : History writes base initial log last) {image current : Value}
    (imaged : image = read (stateAt initial log (stamp image)))
    (tracks : Tracks stamp agrees image (lastLsn base log) (read last) current) :
    agrees (read last) current := by
  unfold Tracks at tracks
  split at tracks
  · rename_i newer
    rw [history.stateAt_eq newer.le] at imaged
    have bounded := stamps.le_lastLsn history last history.last_mem_states
    rw [← imaged] at bounded
    exact absurd newer bounded.not_gt
  · exact tracks

end Images

end CsuDbms.RedoLog
