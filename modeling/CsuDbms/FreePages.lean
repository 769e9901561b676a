import CsuDbms.FreePageModel

/-!
# Every page with room is found again

The pages that a record file remembers are record pages of the file, and a page with a free
slot that was worked on is remembered. An insertion then fails only with one of the calls
it makes.
-/

namespace CsuDbms.FreePageModel

open BufferPoolHeaderModel LittleEndian RecordPageBytes PageAllocation List Option Function BPFileHeader Finset
open TransitionSystem

def RecordFileHandler.Allocated (handler : RecordFileHandler) (page : Nat) : Prop :=
  handler.pool.header.checkPageNum page = true

def IsRecordPage (size : Nat) (area : Area) : Prop := ∃ stored, Represents size area stored

/-- The area of a page whose initialisation did not reach the file. -/
def Blank (area : Area) : Prop := ∀ index, area index = 0

/-- What a page of a file of records of the size can hold. -/
def Formatted (size : Nat) (area : Area) : Prop := IsRecordPage size area ∨ Blank area

structure Sound (size : Nat) (handler : RecordFileHandler) : Prop where
  first : handler.Allocated 0
  records : ∀ page, page ≠ 0 → handler.Allocated page →
    Formatted size (handler.pages page)
  free : ∀ page ∈ handler.freePages,
    page ≠ 0 ∧ handler.Allocated page ∧ IsRecordPage size (handler.pages page)
  created : ∀ page ∈ handler.worked, page ≠ 0
  worked : ∀ page ∈ handler.worked, handler.Allocated page →
    isFull (handler.pages page) = false → page ∈ handler.freePages

/-- The calls of an operation. No allocation fails after the page was marked, the entry of a
new page is written, and deletions are on slots of a record page. -/
def Meets (size : Nat) (handler : RecordFileHandler) : Action → Prop
  | .insert calls data => data.length = size ∧ calls.initLog = none ∧
      (calls.framed = true ∨ handler.pool.header.freePage = none)
  | .delete _ page slot => page ≠ 0 ∧
      (0 ≤ slot ∧ slot < (handler.pages page).recordCapacity ∨
        getBit (handler.pages page) slot = some false)

instance (size : Nat) (handler : RecordFileHandler) (action : Action) :
    Decidable (Meets size handler action) := by
  cases action <;> dsimp only [Meets] <;> infer_instance

variable {size : Nat}

section Pages

variable {area : Area}

theorem isFull_eq_false : isFull area = false ↔ area.recordNum < area.recordCapacity := by
  rw [isFull, decide_eq_false_iff_not, Int.not_le]

theorem Blank.readInt (blank : Blank area) (offset : Nat) : area.readInt offset = 0 := by
  rw [Area.readInt, Area.read, List.map_congr_left fun index _ => blank (offset + index)]
  decide

theorem Blank.recordNum (blank : Blank area) : area.recordNum = 0 := blank.readInt 0

theorem Blank.capacity (blank : Blank area) : area.recordCapacity = 0 := blank.readInt 16

theorem Blank.isFull (blank : Blank area) : isFull area = true := by
  rw [FreePageModel.isFull, blank.capacity, blank.recordNum]
  rfl

theorem exists_free_slot {stored : Stored} (represents : Represents size area stored)
    (room : isFull area = false) : ∃ slot < capacityOf size, stored slot = none := by
  by_contra none
  have whole : used size stored = Finset.range (capacityOf size) := by
    refine filter_true_of_mem fun slot member => ?_
    by_contra empty
    exact none ⟨slot, Finset.mem_range.mp member, by simpa using empty⟩
  have number := represents.recordNum
  rw [whole, card_range, ← represents.capacity] at number
  rw [isFull_eq_false, number] at room
  exact Int.lt_irrefl _ room

theorem room_of_free_slot {stored : Stored} (represents : Represents size area stored)
    {slot : Nat} (inside : slot < capacityOf size) (clear : bitAt area slot = false) :
    isFull area = false := by
  rw [isFull_eq_false, represents.recordNum, represents.capacity]
  have absent : slot ∉ used size stored := by
    rw [used, Finset.mem_filter, ← represents.bits slot inside, clear]
    simp
  have smaller : used size stored ⊂ range (capacityOf size) :=
    (Finset.filter_subset _ _).ssubset_of_mem_notMem (Finset.mem_range.mpr inside) absent
  have card := card_lt_card smaller
  rw [card_range] at card
  exact Int.ofNat_lt.mpr card

variable (positive : 0 < size) (small : size ≤ maxRecordSize)

include positive small

theorem insertRecord_with_room (page : IsRecordPage size area) (room : isFull area = false)
    {data : List Byte} (length : data.length = size) :
    ∃ after slot, RecordPageBytes.insertRecord area data = some (after, .inserted slot) ∧
      IsRecordPage size after := by
  obtain ⟨stored, represents⟩ := page
  obtain ⟨slot, inside, empty⟩ := exists_free_slot represents room
  obtain ⟨after, reply, performed, answers, kept, _⟩ := represents.insert positive small length
  rcases answers with ⟨found, _, _, rfl⟩ | ⟨_, all⟩
  · exact ⟨after, found, performed, _, kept⟩
  · have held := all slot inside
    rw [empty] at held
    cases held

theorem deleteRecord_result (page : IsRecordPage size area) {slot : Int}
    (tame : 0 ≤ slot ∧ slot < area.recordCapacity ∨ getBit area slot = some false) :
    ∃ after reply, RecordPageBytes.deleteRecord area slot = some (after, reply) ∧
      IsRecordPage size after ∧ ((∃ rc, reply = .error rc ∧ after = area) ∨ reply = .done) := by
  obtain ⟨stored, represents⟩ := page
  obtain ⟨after, reply, performed, answers, kept, unchanged⟩ :=
    represents.delete positive small tame
  refine ⟨after, reply, performed, ⟨_, kept⟩, ?_⟩
  rw [Answers] at answers
  split_ifs at answers with held
  · exact .inr answers
  · obtain ⟨rc, failed⟩ := answers
    exact .inl ⟨rc, failed, unchanged ⟨rc, failed⟩⟩

end Pages

variable {pool : Pool} {page : Nat}

section Allocation

theorem allocatePage_spec (lsn : Option Int) {framed : Bool}
    (first : pool.header.checkPageNum 0 = true)
    (met : framed = true ∨ pool.header.freePage = none) :
    match allocatePage pool lsn framed with
    | (.error _, after) => after.header = pool.header
    | (.ok page, after) => page ≠ 0 ∧ after.header.checkPageNum page = true ∧
        ∀ other : Nat, other ≠ page →
          after.header.checkPageNum other = pool.header.checkPageNum other := by
  have zero : 0 < pool.header.pageCount ∧ pool.header.bitmap 0 = true := by
    simpa [checkPageNum] using first
  cases hole : pool.header.freePage with
  | some page =>
    obtain ⟨inside, clear⟩ := freePage_eq_some hole
    obtain rfl : framed = true := met.resolve_right (by simp [hole])
    cases lsn with
    | none => simp [allocatePage, hole]
    | some lsn =>
      simp only [allocatePage, hole, if_true, Pool.write]
      refine ⟨?_, ?_, ?_⟩
      · rintro rfl
        rw [clear] at zero
        cases zero.2
      · simp [reuse, inside]
      · intro other apart
        simp [checkPageNum, reuse, update_of_ne apart]
  | none =>
    by_cases many : maxPageNum ≤ pool.header.pageCount
    · simp [allocatePage, hole, many]
    · cases lsn with
      | none => simp [allocatePage, hole, many]
      | some lsn =>
        cases framed with
        | false => simp [allocatePage, hole, many, Pool.write]
        | true =>
          simp only [allocatePage, hole, if_neg many, if_true, Pool.write]
          refine ⟨by omega, by simp [BPFileHeader.extend], ?_⟩
          intro other apart
          have sides : (other : Int) < pool.header.pageCount + 1 ↔
              (other : Int) < pool.header.pageCount := by omega
          simp [checkPageNum, BPFileHeader.extend, update_of_ne apart, sides]

theorem disposePage_spec (other : page ≠ 0) (allocated : pool.header.checkPageNum page = true)
    (pinned : Bool) (lsn : Option Int) :
    match disposePage pool page pinned lsn with
    | (.error _, after) => after.header = pool.header
    | (.ok _, after) => after.header.checkPageNum page = false ∧
        ∀ rest : Nat, rest ≠ page →
          after.header.checkPageNum rest = pool.header.checkPageNum rest := by
  have nonzero : ¬(page : Int) = 0 := by omega
  cases pinned with
  | true => simp [disposePage, other, allocated]
  | false =>
    cases lsn with
    | none => simp [disposePage, other, allocated]
    | some lsn =>
      simp only [disposePage, if_neg nonzero, allocated, Pool.write]
      refine ⟨by simp [checkPageNum, dispose], ?_⟩
      intro rest apart
      simp [checkPageNum, dispose, update_of_ne apart]

end Allocation

variable {calls : Calls}

section Operations

variable {handler : RecordFileHandler}

theorem initPage_allocated (allocated : handler.Allocated page) :
    initPage calls handler.pool page = (calls.fetch page).elim (.ok ()) .error := by
  have checked : handler.pool.header.checkPageNum page = true := allocated
  rw [initPage, if_pos checked]
  cases calls.fetch page <;> rfl

theorem checked_of_initPage {done : Unit} (opened : initPage calls pool page = .ok done) :
    pool.header.checkPageNum page = true := by
  by_contra absent
  rw [initPage, if_neg absent] at opened
  cases opened

theorem findFreePage_spec {order : List Nat} (allocated : ∀ page ∈ order, handler.Allocated page)
    (freePages : Finset Nat) :
    let found := handler.findFreePage calls order freePages
    found.2 ⊆ freePages ∧
      (∀ page ∈ freePages, page ∉ found.2 → isFull (handler.pages page) = true) ∧
      (∀ rc, found.1 = .error rc → ∃ page ∈ order, calls.fetch page = some rc) ∧
      ∀ page, found.1 = .ok (some page) → page ∈ order ∧ isFull (handler.pages page) = false := by
  fun_induction RecordFileHandler.findFreePage calls handler order freePages with
  | case1 => simp +contextual
  | case2 page rest freePages rc opened =>
    rw [initPage_allocated (allocated page mem_cons_self)] at opened
    refine ⟨fun _ => id, fun _ member absent => absurd member absent, ?_, nofun⟩
    rintro other ⟨⟩
    cases fetched : calls.fetch page with
    | none => simp [fetched] at opened
    | some code => exact ⟨page, mem_cons_self, by simpa [fetched] using opened⟩
  | case3 page rest freePages _ _ full ih =>
    obtain ⟨sub, removed, errors, found⟩ := ih fun later member => allocated later (.tail _ member)
    refine ⟨sub.trans (erase_subset _ _), fun other member absent => ?_, fun rc failed => ?_,
      fun later chosen => ?_⟩
    · by_cases same : other = page
      · exact same ▸ full
      · exact removed other (mem_erase.mpr ⟨same, member⟩) absent
    · obtain ⟨later, member, fetched⟩ := errors rc failed
      exact ⟨later, mem_cons_of_mem _ member, fetched⟩
    · exact ⟨mem_cons_of_mem _ (found later chosen).1, (found later chosen).2⟩
  | case4 page rest freePages _ _ room =>
    refine ⟨fun _ => id, fun _ member absent => absurd member absent, nofun, ?_⟩
    rintro later ⟨⟩
    exact ⟨mem_cons_self, by simpa using room⟩

theorem Sound.narrow (sound : Sound size handler) {freePages : Finset Nat}
    (sub : freePages ⊆ handler.freePages)
    (removed : ∀ page ∈ handler.freePages, page ∉ freePages →
      isFull (handler.pages page) = true) :
    Sound size { handler with freePages := freePages } where
  first := sound.first
  records := sound.records
  free page member := sound.free page (sub member)
  created := sound.created
  worked page member allocated room := by
    by_contra absent
    have full := removed page (sound.worked page member allocated room) absent
    rw [room] at full
    cases full

theorem Sound.withPool (sound : Sound size handler) (same : pool.header = handler.pool.header) :
    Sound size { handler with pool := pool } := by
  have allocated (page : Nat) :
      ({ handler with pool := pool } : RecordFileHandler).Allocated page ↔ handler.Allocated page := by
    rw [RecordFileHandler.Allocated, RecordFileHandler.Allocated, same]
  obtain ⟨first, records, free, created, worked⟩ := sound
  simp only [← allocated] at first records free worked
  exact ⟨first, records, free, created, worked⟩

structure AgreeBut (page : Nat) (handler next : RecordFileHandler) : Prop where
  allocated : ∀ other, other ≠ page → (next.Allocated other ↔ handler.Allocated other)
  pages : ∀ other, other ≠ page → next.pages other = handler.pages other
  free : ∀ other, other ≠ page → (other ∈ next.freePages ↔ other ∈ handler.freePages)
  worked : ∀ other, other ≠ page → other ∈ next.worked → other ∈ handler.worked

theorem Sound.change (sound : Sound size handler) {next : RecordFileHandler} (nonzero : page ≠ 0)
    (agree : AgreeBut page handler next)
    (changed : next.Allocated page ∧ IsRecordPage size (next.pages page) ∧ page ∈ next.freePages ∨
      ¬next.Allocated page ∧ page ∉ next.freePages) : Sound size next := by
  constructor
  · exact (agree.allocated 0 nonzero.symm).mpr sound.first
  · intro other positive allocated
    by_cases same : other = page
    · subst same
      rcases changed with ⟨_, records, _⟩ | ⟨disposed, _⟩
      · exact .inl records
      · exact absurd allocated disposed
    · rw [agree.pages other same]
      exact sound.records other positive ((agree.allocated other same).mp allocated)
  · intro other member
    by_cases same : other = page
    · subst same
      rcases changed with ⟨allocated, records, _⟩ | ⟨_, absent⟩
      · exact ⟨nonzero, allocated, records⟩
      · exact absurd member absent
    · obtain ⟨positive, allocated, records⟩ := sound.free other ((agree.free other same).mp member)
      rw [agree.pages other same]
      exact ⟨positive, (agree.allocated other same).mpr allocated, records⟩
  · intro other member
    by_cases same : other = page
    · exact same ▸ nonzero
    · exact sound.created other (agree.worked other same member)
  · intro other member allocated room
    by_cases same : other = page
    · subst same
      rcases changed with ⟨_, _, free⟩ | ⟨disposed, _⟩
      · exact free
      · exact absurd allocated disposed
    · rw [agree.pages other same] at room
      exact (agree.free other same).mpr (sound.worked other (agree.worked other same member)
        ((agree.allocated other same).mp allocated) room)

variable (positive : 0 < size) (small : size ≤ maxRecordSize)

include positive small

omit positive small in
theorem agree_of_header {area : Area} {freePages worked : Finset Nat}
    (checks : ∀ other : Nat, other ≠ page →
      pool.header.checkPageNum other = handler.pool.header.checkPageNum other)
    (free : ∀ other, other ≠ page → (other ∈ freePages ↔ other ∈ handler.freePages))
    (known : ∀ other, other ≠ page → other ∈ worked → other ∈ handler.worked) :
    AgreeBut page handler ⟨pool, update handler.pages page area, freePages, worked⟩ where
  allocated other apart := by
    rw [RecordFileHandler.Allocated, RecordFileHandler.Allocated, checks other apart]
  pages other apart := update_of_ne apart _ _
  free := free
  worked := known

theorem initEmptyPage_room (area : Area) :
    IsRecordPage size (initEmptyPage area size) ∧ isFull (initEmptyPage area size) = false := by
  have represents := initEmptyPage_represents positive small area
  have one := (layout positive small).1
  exact ⟨⟨_, represents⟩, room_of_free_slot represents one (represents.bits 0 one)⟩

variable {data : List Byte}

theorem Sound.insertIntoPage (sound : Sound size handler) (free : page ∈ handler.freePages)
    (room : isFull (handler.pages page) = false) (length : data.length = size) :
    ∃ after rid, handler.insertIntoPage page data = some (after, .ok rid) ∧ Sound size after := by
  obtain ⟨nonzero, allocated, records⟩ := sound.free page free
  obtain ⟨area, slot, inserted, kept⟩ :=
    insertRecord_with_room positive small records room length
  refine ⟨{ handler with pages := update handler.pages page area }, (page, slot), ?_, ?_⟩
  · rw [RecordFileHandler.insertIntoPage, inserted, map_some]
  · refine sound.change nonzero ?_ (.inl ⟨allocated, ?_, free⟩)
    · exact agree_of_header (fun _ _ => rfl) (fun _ _ => .rfl) (fun _ _ member => member)
    · simpa using kept

theorem Sound.insertIntoNewPage (sound : Sound size handler)
    (met : Meets size handler (.insert calls data)) :
    ∃ after reply, handler.insertIntoNewPage size calls data = some (after, reply) ∧
      Sound size after ∧
      ∀ rc, reply = .error rc → (allocatePage handler.pool calls.lsn calls.framed).1 = .error rc ∧
        after.pool.header = handler.pool.header := by
  obtain ⟨length, logged, framed⟩ := met
  have spec := allocatePage_spec calls.lsn sound.first framed
  rw [RecordFileHandler.insertIntoNewPage]
  cases called : allocatePage handler.pool calls.lsn calls.framed with
  | mk result pool =>
    rw [called] at spec
    cases result with
    | error rc =>
      have same : pool.header = handler.pool.header := spec
      refine ⟨{ handler with pool := pool }, .error rc, rfl, ?_, fun _ failed => ⟨?_, same⟩⟩
      · exact sound.withPool same
      · cases failed
        rfl
    | ok page =>
      obtain ⟨nonzero, allocated, others⟩ := spec
      obtain ⟨records, room⟩ := initEmptyPage_room positive small fun _ => 0
      let created : RecordFileHandler :=
        ⟨pool, update handler.pages page (initEmptyPage (fun _ => 0) size),
          insert page handler.freePages, insert page handler.worked⟩
      have createdPage : created.pages page = initEmptyPage (fun _ => 0) size :=
        update_self ..
      have sound : Sound size created := by
        refine sound.change nonzero ?_ (.inl ⟨allocated, ?_, mem_insert_self _ _⟩)
        · exact agree_of_header others (fun other apart => by simp [apart])
            (fun other apart member => mem_of_mem_insert_of_ne member apart)
        · rwa [createdPage]
      obtain ⟨after, rid, inserted, kept⟩ := sound.insertIntoPage positive small
        (mem_insert_self _ _) (by rwa [createdPage]) length
      refine ⟨after, .ok rid, ?_, kept, ?_⟩
      · simp only [logged]
        exact inserted
      · rintro rc ⟨⟩

theorem Sound.insertRecord (sound : Sound size handler)
    (order : calls.order.toFinset = handler.freePages)
    (met : Meets size handler (.insert calls data)) :
    ∃ after reply, handler.insertRecord size calls data = some (after, reply) ∧
      Sound size after ∧
      ∀ rc, reply = .error rc →
        ((∃ page ∈ handler.freePages, calls.fetch page = some rc) ∨
          (allocatePage handler.pool calls.lsn calls.framed).1 = .error rc) ∧
        after.pool.header = handler.pool.header := by
  have listed (page : Nat) : page ∈ calls.order ↔ page ∈ handler.freePages := by
    rw [← order, List.mem_toFinset]
  have allocated : ∀ page ∈ calls.order, handler.Allocated page :=
    fun page member => (sound.free page ((listed page).mp member)).2.1
  obtain ⟨sub, removed, errors, chosen⟩ := findFreePage_spec allocated handler.freePages
  have narrowed := sound.narrow sub removed
  rw [RecordFileHandler.insertRecord]
  generalize found : handler.findFreePage calls calls.order handler.freePages = result at *
  obtain ⟨result, freePages⟩ := result
  cases result with
  | error rc =>
    refine ⟨_, .error rc, rfl, narrowed, ?_⟩
    rintro other ⟨⟩
    obtain ⟨page, member, fetched⟩ := errors rc rfl
    exact ⟨.inl ⟨page, (listed page).mp member, fetched⟩, rfl⟩
  | ok page =>
    cases page with
    | none =>
      obtain ⟨after, reply, inserted, kept, failed⟩ :=
        narrowed.insertIntoNewPage positive small met
      exact ⟨after, reply, inserted, kept,
        fun rc error => ⟨.inr (failed rc error).1, (failed rc error).2⟩⟩
    | some page =>
      obtain ⟨member, room⟩ := chosen page rfl
      have kept : page ∈ freePages := by
        by_contra absent
        have full := removed page ((listed page).mp member) absent
        rw [room] at full
        cases full
      obtain ⟨after, rid, inserted, kept⟩ :=
        narrowed.insertIntoPage positive small kept room met.1
      refine ⟨after, .ok rid, inserted, kept, ?_⟩
      rintro rc ⟨⟩

omit positive small in
theorem Sound.releasePage (sound : Sound size handler) {area : Area} (nonzero : page ≠ 0)
    (allocated : handler.Allocated page) (records : IsRecordPage size area) :
    Sound size (RecordFileHandler.releasePage calls
      { handler with pages := update handler.pages page area } page) := by
  have added (other : Nat) (apart : other ≠ page) :
      other ∈ insert page handler.freePages ↔ other ∈ handler.freePages := by simp [apart]
  have workedOn (other : Nat) (apart : other ≠ page) (member : other ∈ insert page handler.worked) :
      other ∈ handler.worked := mem_of_mem_insert_of_ne member apart
  have stored : IsRecordPage size (update handler.pages page area page) := by
    rwa [update_self]
  rw [RecordFileHandler.releasePage]
  split_ifs
  · have spec := disposePage_spec nonzero allocated calls.pinned calls.lsn
    cases called : disposePage handler.pool page calls.pinned calls.lsn with
    | mk result pool =>
      rw [called] at spec
      cases result with
      | error rc =>
        have header : pool.header = handler.pool.header := spec
        refine sound.change nonzero ?_
          (.inl ⟨?_, stored, mem_insert_self _ _⟩)
        · refine agree_of_header (fun _ _ => by rw [header]) (fun other apart => ?_) workedOn
          simp [apart]
        · exact (congrArg (fun header => checkPageNum header page) header).trans
            allocated
      | ok _ =>
        obtain ⟨disposed, others⟩ := spec
        refine sound.change nonzero ?_ (.inr ⟨?_, notMem_erase _ _⟩)
        · refine agree_of_header others (fun other apart => ?_)
            (fun other _ member => mem_of_mem_erase member)
          simp [apart]
        · exact fun checked => Bool.false_ne_true (disposed.symm.trans checked)
  · refine sound.change nonzero ?_ (.inl ⟨allocated, stored, mem_insert_self _ _⟩)
    exact agree_of_header (fun _ _ => rfl) added workedOn

theorem Sound.deleteRecord (sound : Sound size handler) {slot : Int}
    (met : Meets size handler (.delete calls page slot)) :
    ∃ after reply, handler.deleteRecord calls page slot = some (after, reply) ∧
      Sound size after := by
  obtain ⟨nonzero, tame⟩ := met
  rw [RecordFileHandler.deleteRecord]
  cases opened : initPage calls handler.pool page with
  | error rc => exact ⟨handler, .error rc, rfl, sound⟩
  | ok _ =>
    have allocated : handler.Allocated page := checked_of_initPage opened
    simp only [if_neg nonzero]
    rcases sound.records page nonzero allocated with records | blank
    · obtain ⟨after, reply, deleted, kept, answer⟩ :=
        deleteRecord_result positive small records tame
      rw [deleted, map_some]
      rcases answer with ⟨rc, rfl, rfl⟩ | rfl
      · refine ⟨_, .error rc, rfl, ?_⟩
        rwa [update_eq_self]
      · exact ⟨_, .ok (), rfl, sound.releasePage nonzero allocated kept⟩
    · have clear : getBit (handler.pages page) slot = some false := by
        refine tame.resolve_left fun inside => ?_
        rw [blank.capacity] at inside
        omega
      refine ⟨handler, .error .recordNotExist, ?_, sound⟩
      simp [RecordPageBytes.deleteRecord, clear]

end Operations

theorem Sound.reached (positive : 0 < size) (small : size ≤ maxRecordSize)
    {start handler : RecordFileHandler} (sound : Sound size start)
    (reached : Reaches (step size) (Meets size) start handler) : Sound size handler := by
  refine reaches_invariant (Sound size) ?_ sound reached
  intro handler action next sound met taken
  cases action with
  | insert calls data =>
    rw [step] at taken
    split_ifs at taken with order
    obtain ⟨after, reply, inserted, kept, _⟩ := sound.insertRecord positive small order met
    rw [inserted, map_some, some.injEq] at taken
    exact taken ▸ kept
  | delete calls page slot =>
    obtain ⟨after, reply, deleted, kept⟩ := sound.deleteRecord positive small met
    rw [step, deleted, map_some, some.injEq] at taken
    exact taken ▸ kept

section Opening

variable {header after : BPFileHeader} {hdrLsn afterLsn : Int}

theorem redo_keeps {entry : LogEntry} (redone : redo (header, hdrLsn) entry = .ok (after, afterLsn))
    (allocated : header.checkPageNum page = true)
    (other : entry.operation = .deallocate → entry.page ≠ page) :
    after.checkPageNum page = true := by
  rw [checkPageNum_natCast] at allocated ⊢
  obtain ⟨lsn, operation, changed⟩ := entry
  cases operation with
  | allocate =>
    simp only [redo, redoAllocatePage] at redone
    split_ifs at redone <;> cases redone
    · exact allocated
    · exact allocated
    · refine ⟨allocated.1, ?_⟩
      by_cases same : page = changed
      · simp [reuse, same]
      · simpa [reuse, update_of_ne same] using allocated.2
    · have inside : page ≠ header.pageCount := by omega
      refine ⟨Nat.lt_succ_of_lt allocated.1, ?_⟩
      simpa [BPFileHeader.extend, update_of_ne inside] using allocated.2
  | deallocate =>
    have apart : page ≠ changed := (other rfl).symm
    simp only [redo, redoDeallocatePage] at redone
    split_ifs at redone <;> cases redone
    · exact allocated
    · refine ⟨allocated.1, ?_⟩
      simpa [dispose, update_of_ne apart] using allocated.2

theorem initFreePages_sub {pages : Nat → Area} {listed : List Nat}
    (member : page ∈ initFreePages calls pool pages listed) :
    page ∈ listed ∧ pool.header.checkPageNum page = true ∧ isFull (pages page) = false := by
  fun_induction initFreePages calls pool pages listed with
  | case1 | case2 => simp at member
  | case3 _ _ _ _ _ ih => exact (ih member).imp_left (mem_cons_of_mem _)
  | case4 first rest _ opened room ih =>
    rcases mem_insert.mp member with rfl | member
    · exact ⟨mem_cons_self, checked_of_initPage opened, Bool.eq_false_iff.mpr room⟩
    · exact (ih member).imp_left (mem_cons_of_mem _)

end Opening

section Replay

/-- Entries as the calls of `Meets` wrote them. None disposes of a page that is remembered from
opening the file. -/
def Logged (size : Nat) (freePages : Finset Nat) : FileEntry → Prop
  | .header entry => entry.operation = .deallocate → entry.page ≠ 0 ∧ entry.page ∉ freePages
  | .record _ page operation => page ≠ 0 ∧
    match operation with
    | .initPage recordSize => recordSize = size
    | .insert data => data.length = size
    | .delete slot => 0 ≤ slot ∧ slot < capacityOf size
    | .update slot data => 0 ≤ slot ∧ data.length = size

variable (positive : 0 < size) (small : size ≤ maxRecordSize)
  {area changed : Area} {reply : Reply} {operation : RecordOperation} {lsn : Int}
  {freePages : Finset Nat} {file after : File}

include positive small

theorem perform_record (records : IsRecordPage size area)
    (logged : Logged size freePages (.record lsn page operation))
    (performed : operation.perform area = some (changed, reply)) : IsRecordPage size changed := by
  obtain ⟨stored, represents⟩ := records
  cases operation with
  | initPage recordSize =>
    cases performed
    rw [show recordSize = size from logged.2]
    exact ⟨_, initEmptyPage_represents positive small area⟩
  | insert data =>
    obtain ⟨_, _, same, _, kept, _⟩ := represents.insert positive small logged.2
    cases same.symm.trans performed
    exact ⟨_, kept⟩
  | delete slot =>
    obtain ⟨_, _, same, _, kept, _⟩ := represents.delete positive small
      (.inl ⟨logged.2.1, represents.capacity ▸ logged.2.2⟩)
    cases same.symm.trans performed
    exact ⟨_, kept⟩
  | update slot data =>
    obtain ⟨_, _, same, _, kept, _⟩ :=
      represents.update positive small logged.2.2 (.inl logged.2.1)
    cases same.symm.trans performed
    exact ⟨_, kept⟩

/-- Only its initialisation is replayed on a page without a header. -/
theorem perform_blank (blank : Blank area)
    (logged : Logged size freePages (.record lsn page operation))
    (performed : operation.perform area = some (changed, reply)) :
    IsRecordPage size changed ∨ ∃ rc, reply = .error rc := by
  cases operation with
  | initPage recordSize =>
    cases performed
    rw [show recordSize = size from logged.2]
    exact .inl ⟨_, initEmptyPage_represents positive small area⟩
  | insert data =>
    rw [RecordOperation.perform, RecordPageBytes.insertRecord, blank.recordNum, blank.capacity,
      if_pos rfl] at performed
    cases performed
    exact .inr ⟨_, rfl⟩
  | delete slot =>
    obtain ⟨place, rfl⟩ := Int.eq_ofNat_of_zero_le logged.2.1
    have clear : getBit area place = some false := by
      rw [getBit, bitPlace_natCast positive small (Int.ofNat_lt.mp logged.2.2), map_some, blank]
      simp [testBit]
    rw [RecordOperation.perform, RecordPageBytes.deleteRecord, clear] at performed
    cases performed
    exact .inr ⟨_, rfl⟩
  | update slot data =>
    rw [RecordOperation.perform, updateRecord, blank.capacity, if_pos logged.2.1] at performed
    cases performed
    exact .inr ⟨_, rfl⟩

/-- A table's file: the header page is there, and every other page is a record page of the size or
was never initialised. -/
structure IsTableFile (size : Nat) (file : File) : Prop where
  first : file.pool.header.checkPageNum 0 = true
  formatted : ∀ page, page ≠ 0 → Formatted size (file.pages page)

/-- What every replayed entry keeps: the pages in the set stay allocated record pages. -/
structure Survives (size : Nat) (freePages : Finset Nat) (file : File) : Prop extends
    IsTableFile size file where
  free : ∀ page ∈ freePages,
    file.pool.header.checkPageNum page = true ∧ IsRecordPage size (file.pages page)

theorem Survives.replayRecord (survives : Survives size freePages file)
    (logged : Logged size freePages (.record lsn page operation))
    (replayed : replayRecord calls file lsn page operation = some after) :
    Survives size freePages after := by
  rw [FreePageModel.replayRecord] at replayed
  split at replayed
  · cases replayed
  split_ifs at replayed with done
  · cases replayed
    exact survives
  split at replayed
  · cases replayed
  · cases replayed
  · rename_i changed reply unfailed performed
    cases replayed
    have records : IsRecordPage size changed := by
      rcases survives.formatted page logged.1 with records | blank
      · exact perform_record positive small records logged performed
      · rcases perform_blank positive small blank logged performed with records | ⟨rc, failed⟩
        · exact records
        · exact absurd failed (unfailed rc)
    refine ⟨⟨survives.first, fun other nonzero => ?_⟩, fun other member => ?_⟩
    · by_cases same : other = page
      · subst same
        simpa only [update_self, Formatted] using Or.inl records
      · simpa only [update_of_ne same] using survives.formatted other nonzero
    · refine ⟨(survives.free other member).1, ?_⟩
      by_cases same : other = page
      · subst same
        simpa only [update_self] using records
      · simpa only [update_of_ne same] using (survives.free other member).2

theorem Survives.replayEntry (survives : Survives size freePages file) {entry : FileEntry}
    (logged : Logged size freePages entry) (replayed : replayEntry calls file entry = some after) :
    Survives size freePages after := by
  cases entry with
  | header entry =>
    rw [FreePageModel.replayEntry] at replayed
    cases redone : redo (file.pool.header, file.pool.hdrLsn) entry with
    | error rc =>
      rw [redone] at replayed
      cases replayed
    | ok result =>
    rw [redone] at replayed
    cases replayed
    refine ⟨⟨redo_keeps redone survives.first fun dispose => (logged dispose).1,
      survives.formatted⟩, fun page member => ⟨?_, (survives.free page member).2⟩⟩
    refine redo_keeps redone (survives.free page member).1 fun dispose same => ?_
    exact (logged dispose).2 (same ▸ member)
  | record lsn page operation => exact survives.replayRecord positive small logged replayed

theorem Survives.replayFile {entries : List FileEntry} (survives : Survives size freePages file)
    (logged : ∀ entry ∈ entries, Logged size freePages entry)
    (replayed : replayFile calls file entries = some after) : Survives size freePages after := by
  induction entries generalizing file with
  | nil =>
    cases replayed
    exact survives
  | cons entry rest ih =>
    rw [FreePageModel.replayFile, foldlM_cons] at replayed
    obtain ⟨middle, stepped, replayed⟩ := bind_eq_some_iff.mp replayed
    exact ih (survives.replayEntry positive small (logged entry mem_cons_self) stepped)
      (fun later member => logged later (mem_cons_of_mem _ member)) replayed

end Replay

theorem openFile_free {file : File} (member : page ∈ (openFile calls file).freePages) :
    page ≠ 0 ∧ file.pool.header.checkPageNum page = true ∧ isFull (file.pages page) = false := by
  obtain ⟨listed, free⟩ := initFreePages_sub member
  have bound := (mem_range'_1.mp (mem_filter.mp listed).1).1
  exact ⟨by omega, free⟩

theorem IsTableFile.survives {file : File} (table : IsTableFile size file) :
    Survives size (openFile calls file).freePages file := by
  refine ⟨table, fun page member => ?_⟩
  obtain ⟨nonzero, checked, room⟩ := openFile_free member
  refine ⟨checked, (table.formatted page nonzero).resolve_right fun blank => ?_⟩
  rw [blank.isFull] at room
  cases room

theorem opened_sound (positive : 0 < size) (small : size ≤ maxRecordSize) {file : File}
    {entries : List FileEntry} {start : RecordFileHandler} (table : IsTableFile size file)
    (replayed : openAndReplay calls file entries = some start)
    (logged : ∀ entry ∈ entries, Logged size (openFile calls file).freePages entry) :
    Sound size start := by
  obtain ⟨after, done, rfl⟩ := map_eq_some_iff.mp replayed
  have survives := table.survives.replayFile positive small logged done
  refine ⟨survives.first, fun page nonzero _ => survives.formatted page nonzero, ?_, ?_, ?_⟩
  · exact fun page member => ⟨(openFile_free member).1, survives.free page member⟩
  · exact fun page member => absurd member (notMem_empty page)
  · exact fun page member => absurd member (notMem_empty page)

def HasFreeSlot (area : Area) : Prop :=
  ∃ slot : Nat, (slot : Int) < area.recordCapacity ∧ bitAt area slot = false

def recordArea : Area := fun index => ((RecordPageBytes.insertRecord (initEmptyPage (fun _ => 0) 8)
  [1, 2, 3, 4, 5, 6, 7, 8]).map Prod.fst).elim 0 fun area => area index

theorem recordArea_isRecordPage : IsRecordPage 8 recordArea := by
  obtain ⟨records, room⟩ := @initEmptyPage_room 8 (by decide) (by decide) fun _ => 0
  obtain ⟨after, slot, inserted, kept⟩ := insertRecord_with_room (by decide) (by decide) records room
    (show [1, 2, 3, 4, 5, 6, 7, 8].length = 8 from rfl)
  have same : recordArea = after := by
    funext index
    rw [recordArea, inserted]
    rfl
  rwa [same]

/-- One record page, and behind it a page that was never written. -/
def onePageFile : File where
  pool := ⟨⟨2, 2, fun page => decide (page < 2)⟩, 4, [], []⟩
  pages := fun page => if page = 1 then recordArea else fun _ => 0
  lsns := fun _ => 4

theorem onePageFile_isTableFile : IsTableFile 8 onePageFile := by
  refine ⟨by decide, fun page _ => ?_⟩
  dsimp only [onePageFile]
  split_ifs
  · exact .inl recordArea_isRecordPage
  · exact .inr fun _ => rfl

def quietCalls (order : List Nat) : Calls := ⟨order, fun _ => none, some 9, true, none, false⟩

/-- A second page is allocated, initialised and written to. The entry of the first page's
insertion is already on it. -/
def fileLog : List FileEntry :=
  [.record 4 1 (.insert [1, 2, 3, 4, 5, 6, 7, 8]), .header ⟨5, .allocate, 2⟩,
    .record 6 2 (.initPage 8), .record 7 2 (.insert [2, 2, 2, 2, 2, 2, 2, 2]),
    .record 8 1 (.insert [3, 3, 3, 3, 3, 3, 3, 3])]

theorem fileLog_logged (freePages : Finset Nat) :
    ∀ entry ∈ fileLog, Logged 8 freePages entry := by
  simp [fileLog, Logged]

def fileActions : List Action :=
  [.insert (quietCalls [1]) [0, 0, 0, 0, 0, 0, 0, 0], .delete (quietCalls []) 2 0,
    .delete (quietCalls []) 1 0, .insert (quietCalls [1]) [1, 1, 1, 1, 1, 1, 1, 1]]

def replayedFile : Option RecordFileHandler := openAndReplay (quietCalls []) onePageFile fileLog

def failure {Result : Type} : Except RC Result → Option RC
  | .ok _ => none
  | .error rc => some rc

end CsuDbms.FreePageModel
