import CsuDbms.DoubleWriteBufferModel

/-!
# Errors while buffered pages are written back

`flush_page` deletes each page object after it has been written back, but takes
them out of the map only at the end, so a later error leaves deleted objects in
the map. `clear_pages` takes its pages out first and deletes them in any case,
and its result does not tell. A write to a slot of the double-write file that
fails is ignored by both.
-/

namespace CsuDbms.DoubleWriteBufferModel

open List Option Function

variable {Page RC : Type}

structure Entry (Page : Type) where
  page : DoubleWritePage Page
  deleted : Bool

structure Memory (Page : Type) where
  entries : List (Entry Page)
  data : DoubleWritePageKey → Option Page

def writeData (data : DoubleWritePageKey → Option Page) (entry : Entry Page) :
    DoubleWritePageKey → Option Page :=
  update data entry.page.key (some entry.page.page)

/-- What a call returns, no code for `SUCCESS`, and leaves. There is none if it uses an object that
has been deleted. -/
abbrev Result (Page RC : Type) := Option (Option RC × Memory Page)

/-- The loop of `flush_page`; `done` are the entries before the iterator. -/
def flushEntries (fails : DoubleWritePageKey → Option RC) (done : List (Entry Page))
    (data : DoubleWritePageKey → Option Page) : List (Entry Page) → Result Page RC
  | [] => some (none, ⟨[], data⟩)
  | entry :: rest =>
    if entry.deleted then none
    else if entry.page.valid then
      match fails entry.page.key with
      | some rc => some (some rc, ⟨done ++ entry :: rest, data⟩)
      | none =>
        flushEntries fails (done ++ [{ entry with deleted := true }]) (writeData data entry) rest
    else flushEntries fails (done ++ [{ entry with deleted := true }]) data rest

def Memory.specEntries (memory : Memory Page) (bufferPoolId : Int) : List (Entry Page) :=
  (memory.entries.filter fun entry => entry.page.key.bufferPoolId = bufferPoolId).insertionSort
    fun a b => a.page.key.pageNum ≤ b.page.key.pageNum

/-- The loop of `clear_pages`, which stops at the first error. -/
def clearEntries (fails : DoubleWritePageKey → Option RC)
    (data : DoubleWritePageKey → Option Page) : List (Entry Page) → DoubleWritePageKey → Option Page
  | [] => data
  | entry :: rest =>
    if (fails entry.page.key).isSome then data
    else clearEntries fails (writeData data entry) rest

inductive PassCall where
  | flushPage
  | clearPages (bufferPoolId : Int)

/-- The predicate of `clear_pages` reads the key of every object. -/
def call (fails : DoubleWritePageKey → Option RC) (memory : Memory Page) : PassCall → Result Page RC
  | .flushPage => flushEntries fails [] memory.data memory.entries
  | .clearPages bufferPoolId =>
    if memory.entries.any Entry.deleted then none
    else
      some (none,
        ⟨memory.entries.filter fun entry => entry.page.key.bufferPoolId ≠ bufferPoolId,
          clearEntries fails memory.data (memory.specEntries bufferPoolId)⟩)

def due (memory : Memory Page) : PassCall → List (Entry Page)
  | .flushPage => memory.entries.filter fun entry => entry.page.valid
  | .clearPages bufferPoolId => memory.specEntries bufferPoolId

/-- The call returns the first error and keeps what it has not written, no object that has been
deleted is in the map, and a call without an error writes the rest. -/
def KeepsPages (fails : DoubleWritePageKey → Option RC) (memory : Memory Page) (action : PassCall) :
    Prop :=
  ∃ next last,
    call fails memory action =
      some ((due memory action).findSome? fun entry => fails entry.page.key, next) ∧
    (∀ entry ∈ next.entries, entry.deleted = false) ∧
    (∀ entry ∈ due memory action,
      next.data entry.page.key = some entry.page.page ∨ entry ∈ next.entries) ∧
    call (fun _ => (none : Option RC)) next action = some (none, last) ∧
    ∀ entry ∈ due memory action, last.data entry.page.key = some entry.page.page

/-- A flush fails at no page or at the first one of the map, and clearing at no page. -/
def FailsAtStart (fails : DoubleWritePageKey → Option RC) (memory : Memory Page) : PassCall → Prop
  | .flushPage =>
    (∀ entry ∈ due memory .flushPage, fails entry.page.key = none) ∨
      ∃ first rest, memory.entries = first :: rest ∧ first.page.valid = true ∧
        (fails first.page.key).isSome = true
  | .clearPages bufferPoolId =>
    ∀ entry ∈ due memory (.clearPages bufferPoolId), fails entry.page.key = none

structure Whole (memory : Memory Page) : Prop where
  alive : ∀ entry ∈ memory.entries, entry.deleted = false
  keys : (memory.entries.map fun entry => entry.page.key).Nodup

variable {fails : DoubleWritePageKey → Option RC} {memory : Memory Page}
  {entries : List (Entry Page)} {data : DoubleWritePageKey → Option Page}

def writeAll (data : DoubleWritePageKey → Option Page) (entries : List (Entry Page)) :
    DoubleWritePageKey → Option Page :=
  entries.foldl writeData data

theorem write_all_other {key : DoubleWritePageKey}
    (other : ∀ entry ∈ entries, entry.page.key ≠ key) : writeAll data entries key = data key := by
  induction entries generalizing data with
  | nil => rfl
  | cons first rest ih =>
    obtain ⟨here, later⟩ := forall_mem_cons.mp other
    exact (ih later).trans (update_of_ne here.symm _ _)

theorem write_all_mem (keys : (entries.map fun entry => entry.page.key).Nodup) :
    ∀ entry ∈ entries, writeAll data entries entry.page.key = some entry.page.page := by
  induction entries generalizing data with
  | nil => exact fun entry member => absurd member not_mem_nil
  | cons first rest ih =>
    obtain ⟨fresh, others⟩ := nodup_cons.mp keys
    apply forall_mem_cons.mpr ⟨?_, ih others⟩
    have behind : ∀ entry ∈ rest, entry.page.key ≠ first.page.key :=
      fun entry member same => fresh (mem_map.mpr ⟨entry, member, same⟩)
    exact (write_all_other behind).trans (update_self _ _ _)

theorem flush_entries_outcome (fails : DoubleWritePageKey → Option RC)
    (data : DoubleWritePageKey → Option Page) (done : List (Entry Page))
    (alive : ∀ entry ∈ entries, entry.deleted = false) :
    ((∀ entry ∈ entries.filter fun entry => entry.page.valid, fails entry.page.key = none) ∧
      flushEntries fails done data entries =
        some (none, ⟨[], writeAll data (entries.filter fun entry => entry.page.valid)⟩)) ∨
    ∃ before entry after rc later, entries = before ++ entry :: after ∧
      entry.page.valid = true ∧ fails entry.page.key = some rc ∧
      flushEntries fails done data entries =
        some (some rc, ⟨done ++ before.map (fun old => { old with deleted := true }) ++
          entry :: after, later⟩) ∧ (before = [] → later = data) := by
  induction entries generalizing done data with
  | nil => exact .inl ⟨fun entry member => absurd member not_mem_nil, rfl⟩
  | cons first rest ih =>
    obtain ⟨here, others⟩ := forall_mem_cons.mp alive
    rw [flushEntries, if_neg (by simp [here])]
    cases valid : first.page.valid with
    | true =>
      have filtered : (first :: rest).filter (fun entry => entry.page.valid) =
          first :: rest.filter fun entry => entry.page.valid := filter_cons_of_pos valid
      rw [if_pos rfl, filtered]
      cases outcome : fails first.page.key with
      | some rc =>
        exact .inr ⟨[], first, rest, rc, data, rfl, valid, outcome, by simp, fun _ => rfl⟩
      | none =>
        rcases ih (writeData data first) _ others with ⟨fine, result⟩ |
          ⟨before, entry, after, rc, later, parts, hit, failed, result, _⟩
        · exact .inl ⟨forall_mem_cons.mpr ⟨outcome, fine⟩, result⟩
        · exact .inr ⟨first :: before, entry, after, rc, later, by rw [parts]; rfl, hit, failed,
            by simpa using result, fun none => by cases none⟩
    | false =>
      rw [if_neg Bool.false_ne_true, filter_cons_of_neg (by simp [valid])]
      rcases ih data _ others with ⟨fine, result⟩ |
        ⟨before, entry, after, rc, later, parts, hit, failed, result, _⟩
      · exact .inl ⟨fine, result⟩
      · exact .inr ⟨first :: before, entry, after, rc, later, by rw [parts]; rfl, hit, failed,
          by simpa using result, fun none => by cases none⟩

theorem clear_entries_all (fine : ∀ entry ∈ entries, fails entry.page.key = none) :
    clearEntries fails data entries = writeAll data entries := by
  induction entries generalizing data with
  | nil => rfl
  | cons first rest ih =>
    obtain ⟨here, later⟩ := forall_mem_cons.mp fine
    rw [clearEntries, here]
    exact ih later

theorem flush_all (whole : Whole memory) :
    ∃ last, call (fun _ => (none : Option RC)) memory .flushPage = some (none, last) ∧
      ∀ entry ∈ due memory .flushPage, last.data entry.page.key = some entry.page.page := by
  rcases flush_entries_outcome (fun _ => (none : Option RC)) memory.data [] whole.alive with
    ⟨_, result⟩ | ⟨_, _, _, _, _, _, _, failed, _⟩
  · exact ⟨_, result, write_all_mem (whole.keys.sublist (filter_sublist.map _))⟩
  · cases failed

theorem flush_keeps (whole : Whole memory) :
    KeepsPages fails memory .flushPage ↔ FailsAtStart fails memory .flushPage := by
  rcases flush_entries_outcome fails memory.data [] whole.alive with
    ⟨fine, result⟩ | ⟨before, entry, after, rc, later, parts, valid, failed, result, same⟩
  · have no_error : (due memory .flushPage).findSome? (fun entry => fails entry.page.key) = none :=
      findSome?_eq_none_iff.mpr fine
    have written : ∀ entry ∈ due memory .flushPage,
        writeAll memory.data (due memory .flushPage) entry.page.key = some entry.page.page :=
      write_all_mem (whole.keys.sublist (filter_sublist.map _))
    refine iff_of_true ⟨_, _, result.trans (by rw [no_error]), ?_, ?_, rfl, written⟩ (.inl fine)
    · exact fun entry member => absurd member not_mem_nil
    · exact fun entry member => .inl (written entry member)
  · have member : entry ∈ due memory .flushPage :=
      mem_filter.mpr ⟨parts ▸ mem_append_right _ mem_cons_self, valid⟩
    constructor
    · intro ⟨next, last, called, alive, _⟩
      obtain ⟨_, rfl⟩ := Prod.mk.inj (some.inj (result.symm.trans called))
      cases before with
      | nil => exact .inr ⟨entry, after, parts, valid, by rw [failed]; rfl⟩
      | cons first others => cases alive _ mem_cons_self
    · intro start
      rcases start with fine | ⟨first, rest, shape, first_valid, first_fails⟩
      · cases failed.symm.trans (fine entry member)
      · obtain ⟨code, first_failed⟩ := isSome_iff_exists.mp first_fails
        obtain ⟨last, repeated, written⟩ := @flush_all Page RC memory whole
        have stopped : call fails memory .flushPage = some (some code, memory) := by
          have alive := whole.alive first (shape ▸ mem_cons_self)
          obtain ⟨entries, data⟩ := memory
          cases shape
          simp [call, flushEntries, alive, first_valid, first_failed]
        have error : (due memory .flushPage).findSome? (fun entry => fails entry.page.key) =
            some code := by
          rw [due, shape, filter_cons, if_pos first_valid, findSome?_cons, first_failed]
        exact ⟨memory, last, by rw [error, stopped], whole.alive,
          fun entry member => .inr (mem_of_mem_filter member), repeated, written⟩

theorem clear_keeps (whole : Whole memory) (bufferPoolId : Int) :
    KeepsPages fails memory (.clearPages bufferPoolId) ↔
      FailsAtStart fails memory (.clearPages bufferPoolId) := by
  have called : ∀ {codes : DoubleWritePageKey → Option RC} {start : Memory Page},
      (∀ entry ∈ start.entries, entry.deleted = false) →
      call codes start (.clearPages bufferPoolId) = some (none,
        ⟨start.entries.filter fun entry => entry.page.key.bufferPoolId ≠ bufferPoolId,
          clearEntries codes start.data (start.specEntries bufferPoolId)⟩) := by
    intro codes start alive
    exact if_neg (by simpa using alive)
  constructor
  · intro ⟨next, last, returned, _⟩
    rw [called whole.alive] at returned
    exact findSome?_eq_none_iff.mp (Prod.mk.inj (some.inj returned)).1.symm
  · intro fine
    have no_error : (due memory (.clearPages bufferPoolId)).findSome?
        (fun entry => fails entry.page.key) = none := findSome?_eq_none_iff.mpr fine
    have kept : ∀ entry ∈ memory.entries.filter
        (fun entry => entry.page.key.bufferPoolId ≠ bufferPoolId), entry.deleted = false :=
      fun entry member => whole.alive entry (mem_of_mem_filter member)
    have keys : ((memory.specEntries bufferPoolId).map fun entry => entry.page.key).Nodup :=
      ((perm_insertionSort _ _).map _).nodup_iff.mpr
        (whole.keys.sublist (filter_sublist.map _))
    have written : ∀ entry ∈ due memory (.clearPages bufferPoolId),
        clearEntries fails memory.data (memory.specEntries bufferPoolId) entry.page.key =
          some entry.page.page := by
      have all := @clear_entries_all _ _ _ (memory.specEntries bufferPoolId) memory.data fine
      rw [all]
      exact write_all_mem keys
    refine ⟨_, _, (called whole.alive).trans (by rw [no_error]), kept,
      fun entry member => .inl (written entry member), called kept, ?_⟩
    have nothing : Memory.specEntries ⟨memory.entries.filter
        (fun entry => entry.page.key.bufferPoolId ≠ bufferPoolId),
        clearEntries fails memory.data (memory.specEntries bufferPoolId)⟩ bufferPoolId = [] := by
      simp [Memory.specEntries, List.filter_filter]
    rw [nothing]
    exact written

theorem keeps_pages_iff (whole : Whole memory) (action : PassCall) :
    KeepsPages fails memory action ↔ FailsAtStart fails memory action := by
  cases action with
  | flushPage => exact flush_keeps whole
  | clearPages bufferPoolId => exact clear_keeps whole bufferPoolId

def twoPages : Memory Nat :=
  ⟨[⟨⟨⟨1, 1⟩, 0, true, 10⟩, false⟩, ⟨⟨⟨1, 2⟩, 1, true, 20⟩, false⟩], fun _ => none⟩

theorem two_pages_whole : Whole twoPages := ⟨by decide, by decide⟩

theorem first_error_keeps_pages :
    KeepsPages (fun key => if key.pageNum = 1 then some () else none) twoPages .flushPage :=
  (keeps_pages_iff two_pages_whole .flushPage).mpr (.inr ⟨_, _, rfl, rfl, rfl⟩)

/-- The write of the second page fails, and the first one is in the map as a deleted object. -/
theorem second_error_loses_page :
    ¬ ∀ (fails : DoubleWritePageKey → Option Unit) (memory : Memory Nat) (action : PassCall),
      Whole memory → KeepsPages fails memory action := by
  intro keeps
  obtain ⟨next, last, called, alive, _⟩ :=
    keeps (fun key => if key.pageNum = 2 then some () else none) twoPages .flushPage two_pages_whole
  cases called
  cases alive _ mem_cons_self

end CsuDbms.DoubleWriteBufferModel
