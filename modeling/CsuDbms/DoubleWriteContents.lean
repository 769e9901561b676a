import CsuDbms.DoubleWriteBufferModel

/-!
# What the double-write buffer holds over the data files

Without a crash every call goes to its end. `lowerPage` is the page as the map
and the data files together have it: the image of a valid entry, and the data
file otherwise. A flush and a clear leave it as it is, `add_page` changes it for
one page. An invalid entry, as `load_pages` brings it in, does not count, although
`read_page` returns it.
-/

namespace CsuDbms.DoubleWriteBufferModel

open List Function DoubleWritePage FileWrite

variable {Page : Type}

def lowerPage (buffer : Buffer Page) (disk : Disk Page) (key : DoubleWritePageKey) :
    Stored Page :=
  match buffer.find key with
  | some page => if page.valid then .whole page.page else disk.data key
  | none => disk.data key

structure Tidy (buffer : Buffer Page) (disk : Disk Page) : Prop where
  keys : (buffer.pages.map key).Nodup
  slots : ∀ index page, disk.slots index = .whole page → page.valid = true →
    page ∈ buffer.pages
  indexed : ∀ index page, disk.slots index = .whole page → page.pageIndex = index

variable {buffer : Buffer Page}

theorem find_eq_some_iff
    (keys : (buffer.pages.map key).Nodup) (page : DoubleWritePage Page) :
    buffer.find page.key = some page ↔ page ∈ buffer.pages := by
  refine ⟨fun found => (find_some found).1, fun member => ?_⟩
  cases found : buffer.find page.key with
  | none => exact absurd rfl (find_none found page member)
  | some other =>
    obtain ⟨otherMember, same⟩ := find_some found
    rw [inj_on_of_nodup_map keys otherMember member same]

variable {key : DoubleWritePageKey}

theorem find_congr {first second : Buffer Page}
    (secondKeys : (second.pages.map DoubleWritePage.key).Nodup)
    (same : ∀ page, page.key = key → (page ∈ first.pages ↔ page ∈ second.pages)) :
    first.find key = second.find key := by
  cases found : first.find key with
  | none =>
    symm
    refine find?_eq_none.mpr fun page member => ?_
    simp only [decide_eq_true_eq]
    exact fun equal => find_none found page ((same page equal).mpr member) equal
  | some page =>
    obtain ⟨member, rfl⟩ := find_some found
    exact ((find_eq_some_iff secondKeys page).mpr ((same page rfl).mp member)).symm

variable {disk : Disk Page}

theorem slots_after {Good : Nat → DoubleWritePage Page → Prop} {writes : List (FileWrite Page)}
    (slots : ∀ index page, disk.slots index = .whole page → Good index page)
    (written : ∀ page, .slot page ∈ writes → Good page.pageIndex page) :
    ∀ index page, (applyWrites disk writes).slots index = .whole page → Good index page := by
  induction writes generalizing disk with
  | nil => exact slots
  | cons write writes ih =>
    refine ih ?_ fun page member => written page (.tail _ member)
    intro index page slot
    cases write with
    | slot new =>
      simp only [apply, update_apply] at slot
      split at slot
      · rename_i same
        cases slot
        exact same ▸ written _ mem_cons_self
      · exact slots index page slot
    | header pageCnt => exact slots index page slot
    | data key image => exact slots index page slot

theorem write_back_data (disk : Disk Page) (page : DoubleWritePage Page)
    (key : DoubleWritePageKey) :
    (applyWrites disk page.writeBack).data key =
      if page.key = key ∧ page.valid = true then .whole page.page else disk.data key := by
  cases valid : page.valid with
  | false => simp [writeBack, valid, applyWrites, apply]
  | true =>
    simp only [writeBack, valid, applyWrites, apply, and_true,
      if_true, singleton_append, foldl_cons, foldl_nil, update_apply,
      eq_comm]

theorem write_back_slots (disk : Disk Page) (page : DoubleWritePage Page) :
    (applyWrites disk page.writeBack).slots =
      update disk.slots page.pageIndex (.whole page.invalidate) := by
  cases valid : page.valid <;>
    simp [writeBack, valid, applyWrites, apply,
      invalidate]

theorem flush_data {pages : List (DoubleWritePage Page)}
    (keys : (pages.map DoubleWritePage.key).Nodup) (disk : Disk Page) (pageCnt : Nat)
    (key : DoubleWritePageKey) :
    (applyWrites disk (pages.flatMap writeBack)).data key =
      lowerPage ⟨pages, pageCnt⟩ disk key := by
  induction pages generalizing disk with
  | nil => rfl
  | cons page rest ih =>
    obtain ⟨fresh, restKeys⟩ := nodup_cons.mp keys
    rw [flatMap_cons, applyWrites_append, ih restKeys]
    unfold lowerPage
    simp only [Buffer.find, find?_cons]
    by_cases same : page.key = key
    · have absent : rest.find? (fun other => other.key = key) = none := by
        refine find?_eq_none.mpr fun other member => ?_
        simp only [decide_eq_true_eq]
        exact fun equal => fresh (same.trans equal.symm ▸ mem_map_of_mem member)
      simp [absent, same, write_back_data]
    · simp [same, write_back_data]

variable {page : DoubleWritePage Page}

theorem flush_slots (pages : List (DoubleWritePage Page)) (disk : Disk Page) {index : Nat}
    (slot : (applyWrites disk (pages.flatMap writeBack)).slots index = .whole page)
    (valid : page.valid = true) :
    disk.slots index = .whole page ∧ ∀ flushed ∈ pages, flushed.pageIndex ≠ index := by
  induction pages generalizing disk with
  | nil => exact ⟨slot, by simp⟩
  | cons first rest ih =>
    rw [flatMap_cons, applyWrites_append] at slot
    obtain ⟨kept, elsewhere⟩ := ih _ slot
    rw [write_back_slots, update_apply] at kept
    split at kept
    · cases kept
      cases valid
    · rename_i different
      exact ⟨kept, forall_mem_cons.mpr ⟨fun same => different same.symm, elsewhere⟩⟩

def NoStale (buffer : Buffer Page) (key : DoubleWritePageKey) : Prop :=
  ∀ page ∈ buffer.find key, page.valid = true

def Current (buffer : Buffer Page) (disk : Disk Page) (key : DoubleWritePageKey) : Prop :=
  ∀ page ∈ buffer.find key, page.valid = false → disk.data key = .whole page.page

def StaleKept (buffer : Buffer Page) (disk : Disk Page) (next : Buffer Page)
    (nextDisk : Disk Page) : Prop :=
  ∀ key page, next.find key = some page → page.valid = false →
    buffer.find key = some page ∧ nextDisk.data key = disk.data key

variable {nextDisk : Disk Page}

section StaleKept

variable {next : Buffer Page} (kept : StaleKept buffer disk next nextDisk)

include kept

theorem kept_noStale (fresh : NoStale buffer key) : NoStale next key := by
  intro page found
  by_contra invalid
  have old := (kept key page found (by simpa using invalid)).1
  exact invalid (fresh page old)

theorem kept_current (current : Current buffer disk key) : Current next nextDisk key := by
  intro page found invalid
  obtain ⟨old, sameData⟩ := kept key page found invalid
  rw [sameData]
  exact current page old invalid

theorem kept_trans {last : Buffer Page} {lastDisk : Disk Page}
    (later : StaleKept next nextDisk last lastDisk) : StaleKept buffer disk last lastDisk := by
  intro key page found invalid
  obtain ⟨nextFound, laterData⟩ := later key page found invalid
  obtain ⟨oldFound, firstData⟩ := kept key page nextFound invalid
  exact ⟨oldFound, laterData.trans firstData⟩

end StaleKept

/-- What a call leaves of the map: it stays tidy, its invalid entries are old
ones, and its valid entries are old ones or of `added`. -/
structure Carries (buffer : Buffer Page) (disk : Disk Page) (next : Buffer Page)
    (nextDisk : Disk Page) (added : DoubleWritePageKey → Prop) : Prop where
  tidy : Tidy next nextDisk
  stale : StaleKept buffer disk next nextDisk
  valid : ∀ page ∈ next.pages, page.valid = true →
    added page.key ∨ ∃ old ∈ buffer.pages, old.valid = true ∧ old.key = page.key

variable {order : List (DoubleWritePage Page)}

theorem flush_carries (tidy : Tidy buffer disk) (perm : order.Perm buffer.pages)
    (added : DoubleWritePageKey → Prop) :
    Carries buffer disk (flushPage order).1 (applyWrites disk (flushPage order).2) added where
  tidy :=
    { keys := nodup_nil
      slots := by
        intro index page slot valid
        obtain ⟨kept, elsewhere⟩ := flush_slots order disk slot valid
        have member := perm.mem_iff.mpr (tidy.slots index page kept valid)
        exact absurd (tidy.indexed index page kept) (elsewhere page member)
      indexed := slots_after tidy.indexed fun _ _ => rfl }
  stale := by
    intro key page found
    simp [flushPage, Buffer.find] at found
  valid := by simp [flushPage]

theorem flush_lower (tidy : Tidy buffer disk) (perm : order.Perm buffer.pages)
    (key : DoubleWritePageKey) :
    lowerPage (flushPage order).1 (applyWrites disk (flushPage order).2) key =
      lowerPage buffer disk key := by
  have orderKeys : (order.map DoubleWritePage.key).Nodup :=
    (perm.map _).nodup_iff.mpr tidy.keys
  have sameFind : buffer.find key = (⟨order, buffer.pageCnt⟩ : Buffer Page).find key :=
    find_congr orderKeys fun page _ => perm.mem_iff.symm
  have written := flush_data orderKeys disk buffer.pageCnt key
  unfold lowerPage at written ⊢
  rw [sameFind, ← written]
  rfl

theorem clear_writes_eq {pages : List (DoubleWritePage Page)}
    (keys : (pages.map DoubleWritePage.key).Nodup)
    (current : ∀ page ∈ pages, page.valid = false → disk.data page.key = .whole page.page) :
    applyWrites disk (pages.flatMap fun page =>
        [.data page.key page.page, .slot page.invalidate]) =
      applyWrites disk (pages.flatMap writeBack) := by
  induction pages generalizing disk with
  | nil => rfl
  | cons page rest ih =>
    obtain ⟨fresh, restKeys⟩ := nodup_cons.mp keys
    have one : applyWrites disk [.data page.key page.page, .slot page.invalidate] =
        applyWrites disk page.writeBack := by
      cases valid : page.valid with
      | true => simp [writeBack, valid]
      | false =>
        have same := current page mem_cons_self valid
        simp [writeBack, valid, applyWrites, apply, ← same]
    rw [flatMap_cons, flatMap_cons, applyWrites_append, applyWrites_append, one]
    apply ih restKeys
    intro other member invalid
    have different : page.key ≠ other.key :=
      fun same => fresh (same ▸ mem_map_of_mem member)
    rw [write_back_data, if_neg fun both => different both.1]
    exact current other (.tail _ member) invalid

section Clear

variable (tidy : Tidy buffer disk) (bufferPoolId : Int)
  (current : ∀ page ∈ buffer.pages, page.key.bufferPoolId = bufferPoolId → Current buffer disk page.key)

include tidy

theorem specPages_keys :
    ((buffer.specPages bufferPoolId).map DoubleWritePage.key).Nodup := by
  have perm := perm_insertionSort
    (fun a b : DoubleWritePage Page => a.key.pageNum ≤ b.key.pageNum)
    (buffer.pages.filter fun page => page.key.bufferPoolId = bufferPoolId)
  exact (perm.map _).nodup_iff.mpr (tidy.keys.sublist (filter_sublist.map _))

theorem cleared_find (key : DoubleWritePageKey) :
    (buffer.clearPages bufferPoolId).1.find key =
      if key.bufferPoolId = bufferPoolId then none else buffer.find key := by
  split
  · rename_i inFile
    refine find?_eq_none.mpr fun page member => ?_
    simp only [Buffer.clearPages, mem_filter, decide_eq_true_eq] at member ⊢
    exact fun same => member.2 (same ▸ inFile)
  · rename_i elsewhere
    refine find_congr tidy.keys fun page same => ?_
    simp [Buffer.clearPages, same, elsewhere]

include current

theorem clear_disk :
    applyWrites disk (buffer.clearPages bufferPoolId).2 =
      applyWrites disk
        ((buffer.specPages bufferPoolId).flatMap DoubleWritePage.writeBack) := by
  apply clear_writes_eq (specPages_keys tidy bufferPoolId)
  intro page member invalid
  obtain ⟨inside, inFile⟩ := (mem_specPages _ _ _).mp member
  exact current page inside inFile page ((find_eq_some_iff tidy.keys page).mpr inside) invalid

theorem cleared_data (key : DoubleWritePageKey) :
    (applyWrites disk (buffer.clearPages bufferPoolId).2).data key =
      if key.bufferPoolId = bufferPoolId then lowerPage buffer disk key else disk.data key := by
  have written := flush_data (specPages_keys tidy bufferPoolId) disk 0 key
  rw [clear_disk tidy bufferPoolId current, written]
  split
  · rename_i inFile
    unfold lowerPage
    rw [show buffer.find key = (⟨buffer.specPages bufferPoolId, 0⟩ : Buffer Page).find key from
      find_congr (specPages_keys tidy bufferPoolId) fun page same => by
        simp [mem_specPages, same, inFile]]
  · rename_i elsewhere
    have absent : (⟨buffer.specPages bufferPoolId, 0⟩ : Buffer Page).find key = none := by
      refine find?_eq_none.mpr fun page member => ?_
      simp only [mem_specPages, decide_eq_true_eq] at member ⊢
      exact fun same => elsewhere (same ▸ member.2)
    simp [lowerPage, absent]

theorem clear_lower (key : DoubleWritePageKey) :
    lowerPage (buffer.clearPages bufferPoolId).1
        (applyWrites disk (buffer.clearPages bufferPoolId).2) key =
      lowerPage buffer disk key := by
  have data := cleared_data tidy bufferPoolId current key
  have found := cleared_find tidy bufferPoolId key
  by_cases inFile : key.bufferPoolId = bufferPoolId
  · rw [if_pos inFile] at data found
    rw [← data]
    simp [lowerPage, found]
  · rw [if_neg inFile] at data found
    simp [lowerPage, found, data]

theorem clear_carries (added : DoubleWritePageKey → Prop) :
    Carries buffer disk (buffer.clearPages bufferPoolId).1
      (applyWrites disk (buffer.clearPages bufferPoolId).2) added where
  tidy :=
    { keys := tidy.keys.sublist (filter_sublist.map _)
      slots := by
        intro index page slot valid
        rw [clear_disk tidy bufferPoolId current] at slot
        obtain ⟨kept, elsewhere⟩ := flush_slots _ disk slot valid
        have member := tidy.slots index page kept valid
        refine mem_filter.mpr ⟨member, decide_eq_true fun inFile => ?_⟩
        exact elsewhere page ((mem_specPages _ _ _).mpr ⟨member, inFile⟩)
          (tidy.indexed index page kept)
      indexed := slots_after tidy.indexed fun _ _ => rfl }
  stale := by
    intro key page found invalid
    rw [cleared_find tidy bufferPoolId key] at found
    split at found
    · cases found
    · rename_i elsewhere
      refine ⟨found, ?_⟩
      rw [cleared_data tidy bufferPoolId current key, if_neg elsewhere]
  valid := by
    intro page member valid
    exact .inr ⟨page, mem_of_mem_filter member, valid, rfl⟩

end Clear

theorem carries_trans {middle next : Buffer Page} {middleDisk : Disk Page}
    {added : DoubleWritePageKey → Prop} (first : Carries buffer disk middle middleDisk added)
    (second : Carries middle middleDisk next nextDisk added) :
    Carries buffer disk next nextDisk added where
  tidy := second.tidy
  stale := kept_trans first.stale second.stale
  valid := by
    intro page member valid
    rcases second.valid page member valid with isAdded | ⟨old, oldMember, oldValid, sameKey⟩
    · exact .inl isAdded
    · rw [← sameKey]
      exact first.valid old oldMember oldValid

structure Sets (buffer : Buffer Page) (disk : Disk Page) (next : Buffer Page)
    (nextDisk : Disk Page) (page : DoubleWritePage Page) : Prop where
  keys : (next.pages.map DoubleWritePage.key).Nodup
  entries : ∀ other, other ∈ next.pages ↔
    other = page ∨ other ∈ buffer.pages ∧ other.key ≠ page.key
  data : nextDisk.data = disk.data
  slots : nextDisk.slots = update disk.slots page.pageIndex (.whole page)

section Sets

variable {next : Buffer Page} (tidy : Tidy buffer disk) (sets : Sets buffer disk next nextDisk page)

include sets in
theorem sets_find_same : next.find page.key = some page :=
  (find_eq_some_iff sets.keys page).mpr ((sets.entries page).mpr (.inl rfl))

include tidy sets

theorem sets_find_other (different : key ≠ page.key) :
    next.find key = buffer.find key := by
  refine find_congr tidy.keys fun other same => ?_
  rw [sets.entries other]
  constructor
  · rintro (rfl | ⟨member, -⟩)
    · exact absurd same.symm different
    · exact member
  · exact fun member => .inr ⟨member, same ▸ different⟩

theorem sets_lower (valid : page.valid = true) (key : DoubleWritePageKey) :
    lowerPage next nextDisk key =
      if key = page.key then .whole page.page else lowerPage buffer disk key := by
  split
  · rename_i same
    simp [lowerPage, same, sets_find_same sets, valid]
  · rename_i different
    simp [lowerPage, sets_find_other tidy sets different, sets.data]

theorem sets_carries (valid : page.valid = true)
    (replaced : ∀ old ∈ buffer.pages, old.key = page.key → old.pageIndex = page.pageIndex) :
    Carries buffer disk next nextDisk (· = page.key) where
  tidy :=
    { keys := sets.keys
      slots := by
        intro index other slot otherValid
        rw [sets.slots, update_apply] at slot
        rw [sets.entries other]
        split at slot
        · cases slot
          exact .inl rfl
        · rename_i elsewhere
          have member := tidy.slots index other slot otherValid
          refine .inr ⟨member, fun same => elsewhere ?_⟩
          rw [← tidy.indexed index other slot]
          exact replaced other member same
      indexed := by
        intro index other slot
        rw [sets.slots, update_apply] at slot
        split at slot
        · rename_i same
          cases slot
          exact same.symm
        · exact tidy.indexed index other slot }
  stale := by
    intro key other found invalid
    have different : key ≠ page.key := by
      rintro rfl
      rw [sets_find_same sets] at found
      cases found
      cases valid.symm.trans invalid
    rw [sets_find_other tidy sets different] at found
    exact ⟨found, by rw [sets.data]⟩
  valid := by
    intro other member otherValid
    rcases (sets.entries other).mp member with rfl | ⟨old, -⟩
    · exact .inl rfl
    · exact .inr ⟨other, old, otherValid, rfl⟩

end Sets

theorem replace_sets (tidy : Tidy buffer disk) (member : page ∈ buffer.pages) (image : Page) :
    Sets buffer disk
      { buffer with pages := replacePage buffer.pages { page with page := image } }
      ((FileWrite.slot { page with page := image }).apply disk) { page with page := image } where
  keys := by
    have sameKeys : (replacePage buffer.pages { page with page := image }).map
        key = buffer.pages.map key := by
      rw [replacePage, map_map]
      apply map_congr_left
      intro other _
      simp only [comp_apply]
      split
      · rename_i same
        exact same.symm
      · rfl
    rw [sameKeys]
    exact tidy.keys
  entries := by
    intro other
    simp only [replacePage, mem_map]
    constructor
    · rintro ⟨old, oldMember, rfl⟩
      split
      · exact .inl rfl
      · rename_i different
        exact .inr ⟨oldMember, different⟩
    · rintro (rfl | ⟨otherMember, different⟩)
      · exact ⟨page, member, if_pos rfl⟩
      · exact ⟨other, otherMember, if_neg different⟩
  data := rfl
  slots := rfl

theorem new_sets (tidy : Tidy buffer disk)
    {added : DoubleWritePage Page} (absent : buffer.find added.key = none) (pageCnt : Nat) :
    Sets buffer disk ⟨buffer.pages ++ [added], pageCnt⟩
      (applyWrites disk (buffer.newPageWrites added)) added where
  keys := by
    rw [map_append, map_singleton]
    refine nodup_append.mpr ⟨tidy.keys, nodup_singleton _, ?_⟩
    intro key member other single
    obtain ⟨present, inside, rfl⟩ := mem_map.mp member
    rw [mem_singleton.mp single]
    exact find_none absent present inside
  entries := by
    intro other
    rw [mem_append, mem_singleton, or_comm]
    exact or_congr_right
      ⟨fun member => ⟨member, find_none absent other member⟩, And.left⟩
  data := by
    unfold Buffer.newPageWrites
    split <;> rfl
  slots := by
    unfold Buffer.newPageWrites
    split <;> rfl

section Add

variable (tidy : Tidy buffer disk) (fresh : NoStale buffer key) (maxPages : Nat) (image : Page)
  (perm : order.Perm (buffer.pages ++ [⟨key, buffer.pages.length, true, image⟩]))

include tidy fresh perm

theorem add_effect :
    Carries buffer disk (buffer.addPage maxPages key image order).1
        (applyWrites disk (buffer.addPage maxPages key image order).2) (· = key) ∧
      ∀ other, lowerPage (buffer.addPage maxPages key image order).1
          (applyWrites disk (buffer.addPage maxPages key image order).2) other =
        if other = key then .whole image else lowerPage buffer disk other := by
  cases found : buffer.find key with
  | some page =>
    obtain ⟨member, sameKey⟩ := find_some found
    have valid : page.valid = true := fresh page found
    have sets := replace_sets tidy member image
    have carries := sets_carries tidy sets valid fun old oldMember same => by
      rw [inj_on_of_nodup_map tidy.keys oldMember member same]
    rw [addPage_buffered found]
    subst sameKey
    exact ⟨carries, sets_lower tidy sets valid⟩
  | none =>
    have sets (pageCnt : Nat) := @new_sets _ _ _ tidy
      ⟨key, buffer.pages.length, true, image⟩ found pageCnt
    have carries (pageCnt : Nat) := sets_carries tidy (sets pageCnt) rfl
      fun old member same => absurd same (find_none found old member)
    have lower (pageCnt : Nat) := sets_lower tidy (sets pageCnt) rfl
    rw [addPage_new found]
    split
    · rw [applyWrites_append]
      have flushed := flush_carries (carries 0).tidy perm (· = key)
      refine ⟨carries_trans (carries 0) flushed, fun other => ?_⟩
      rw [flush_lower (carries 0).tidy perm, lower 0]
    · exact ⟨carries _, lower _⟩

end Add

end CsuDbms.DoubleWriteBufferModel
