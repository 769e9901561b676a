import CsuDbms.ClockPolicy
import CsuDbms.ReferenceOrder

/-!
# The frame manager and its policy

`BPFrameManager` keeps the map from page ids to frames, and tells the replacement
policy of every change. A frame is known by its address; it holds its own page id and
its pins, a 32-bit count. The assertions of `free_internal` are empty in release builds, so a frame
may be freed under any page id. What the purge callback does to other files does not
reach the manager; only its result does.
-/

namespace CsuDbms.FrameManagerModel

open DiskBufferPoolModel ReplacementPolicyModel List Option

inductive Policy where
  | ordered (policy : OrderedReplacementPolicy)
  | lruK (policy : LRUKReplacementPolicy)
  | clock (policy : ClockReplacementPolicy)

inductive PolicyType where
  | lru | fifo | lruK | clock

def Policy.create : PolicyType → Policy
  | .lru => .ordered lruReplacementPolicy
  | .fifo => .ordered fifoReplacementPolicy
  | .lruK => .lruK .create
  | .clock => .clock .create

def Policy.notify : Policy → Event → Policy
  | .ordered policy, event => .ordered (policy.notify event)
  | .lruK policy, event => .lruK (policy.notify event)
  | .clock policy, event => .clock (policy.notify event)

abbrev Walk := List (Sigma fun _ : FrameId => List UInt64) →
  List (Sigma fun _ : FrameId => List UInt64)

def Policy.chooseVictim (walk : Walk) (isReplaceable : FrameId → Bool) :
    Policy → Policy × Option FrameId
  | .ordered policy => (.ordered policy, policy.chooseVictim isReplaceable)
  | .lruK policy =>
    (.lruK policy,
      LRUKReplacementPolicy.chooseVictim isReplaceable (walk policy.histories.entries))
  | .clock policy =>
    (.clock (policy.chooseVictim isReplaceable).1, (policy.chooseVictim isReplaceable).2)

def Policy.Tracks : Policy → FrameId → Prop
  | .ordered policy, frameId => frameId ∈ policy.frames
  | .lruK policy, frameId => frameId ∈ policy.histories
  | .clock policy, frameId => frameId ∈ policy.ring

structure FrameState where
  frameId : FrameId
  pinCount : BitVec 32

/-- `frames` is the map, `memory` the frames by address, `used` and `frees` the lists of
the allocator. -/
structure Manager where
  frames : AList fun _ : FrameId => Nat
  memory : Nat → FrameState
  used : List Nat
  frees : List Nat
  policy : Policy

namespace Manager

def init (type : PolicyType) (capacity : Nat) : Manager :=
  ⟨∅, fun _ => ⟨⟨-1, -1⟩, 0⟩, [], List.range capacity, .create type⟩

def notify (manager : Manager) (event : Event) : Manager :=
  { manager with policy := manager.policy.notify event }

def setPins (manager : Manager) (frame : Nat) (change : BitVec 32) : Manager :=
  { manager with
    memory := Function.update manager.memory frame
      { manager.memory frame with pinCount := (manager.memory frame).pinCount + change } }

def get (manager : Manager) (frameId : FrameId) : Manager × Option Nat :=
  match manager.frames.lookup frameId with
  | none => (manager, none)
  | some frame =>
    (((manager.notify (.access frameId)).setPins frame 1).notify (.pin frameId), some frame)

def alloc (manager : Manager) (frameId : FrameId) : Manager × Option Nat :=
  match manager.frames.lookup frameId, manager.frees with
  | some _, _ => manager.get frameId
  | none, [] => (manager, none)
  | none, frame :: rest =>
    let pinned := (manager.memory frame).pinCount + 1
    let taken := { manager with
      frees := rest
      used := frame :: manager.used
      memory := Function.update manager.memory frame ⟨frameId, pinned⟩
      frames := manager.frames.insert frameId frame }
    ((taken.notify (.insert frameId)).notify (.pin frameId), some frame)

def free (manager : Manager) (frameId : FrameId) (frame : Nat) : Manager :=
  let pageId := (manager.memory frame).frameId
  let reset := { manager with
    memory := Function.update manager.memory frame
      ⟨⟨pageId.bufferPoolId, -1⟩, (manager.memory frame).pinCount - 1⟩ }
  let told := (reset.notify (.unpin frameId)).notify (.remove frameId)
  { told with
    frames := told.frames.erase frameId
    used := told.used.erase frame
    frees := if frame ∈ told.used then told.frees ++ [frame] else told.frees }

def isReplaceable (manager : Manager) (frameId : FrameId) : Bool :=
  match manager.frames.lookup frameId with
  | none => false
  | some frame => (manager.memory frame).pinCount = 0

/-- The first loop of `purge_frames`, for this number of frames. -/
def choose (walk : Walk) : Nat → Manager → Manager × List Nat
  | 0, manager => (manager, [])
  | count + 1, manager =>
    let choice := manager.policy.chooseVictim walk manager.isReplaceable
    let asked := { manager with policy := choice.1 }
    match choice.2 with
    | none => (asked, [])
    | some victim =>
      match manager.frames.lookup victim with
      | none => (asked, [])
      | some frame =>
        if (manager.memory frame).pinCount = 0 then
          let chosen := choose walk count ((asked.setPins frame 1).notify (.pin victim))
          (chosen.1, frame :: chosen.2)
        else (asked, [])

def purge (purger : Nat → Bool) : List Nat → Manager → Manager × List Nat
  | [], manager => (manager, [])
  | frame :: rest, manager =>
    let frameId := (manager.memory frame).frameId
    if purger frame then
      let purged := purge purger rest (manager.free frameId frame)
      (purged.1, frame :: purged.2)
    else purge purger rest ((manager.setPins frame (-1)).notify (.unpin frameId))

def purgeFrames (walk : Walk) (count : Int) (purger : Nat → Bool) (manager : Manager) :
    Manager × List Nat :=
  let chosen := choose walk (if count ≤ 0 then 1 else count.toNat) manager
  purge purger chosen.2 chosen.1

inductive Call where
  | get (frameId : FrameId)
  | alloc (frameId : FrameId)
  | free (frameId : FrameId) (frame : Nat)
  | unpin (frame : Nat)
  | purgeFrames (walk : Walk) (count : Int) (purger : Nat → Bool)

def call (manager : Manager) : Call → Manager
  | .get frameId => (manager.get frameId).1
  | .alloc frameId => (manager.alloc frameId).1
  | .free frameId frame => manager.free frameId frame
  | .unpin frame => manager.setPins frame (-1)
  | .purgeFrames walk count purger => (manager.purgeFrames walk count purger).1

end Manager

variable {frameId : FrameId} {policy : Policy}

namespace Policy

def Sound : Policy → Prop
  | .ordered policy => policy.Linked
  | .lruK _ => True
  | .clock policy => policy.ring.Nodup

theorem create_sound (type : PolicyType) :
    (create type).Sound ∧ ∀ frameId, ¬ (create type).Tracks frameId := by
  cases type with
  | lru =>
    have follows := OrderedReplacementPolicy.create_follows true lastAccess
    exact ⟨follows.linked, fun frameId => not_mem_nil⟩
  | fifo =>
    have follows := OrderedReplacementPolicy.create_follows false lastAccess
    exact ⟨follows.linked, fun frameId => not_mem_nil⟩
  | lruK => exact ⟨trivial, fun frameId => AList.notMem_empty frameId⟩
  | clock => exact ⟨nodup_nil, fun frameId => not_mem_nil⟩

theorem remove_spec (sound : policy.Sound) (frameId : FrameId) :
    (policy.notify (.remove frameId)).Sound ∧
      ∀ other, (policy.notify (.remove frameId)).Tracks other ↔
        other ≠ frameId ∧ policy.Tracks other := by
  cases policy with
  | ordered policy =>
    obtain ⟨linked, frames⟩ := OrderedReplacementPolicy.Linked.onRemove sound frameId
    refine ⟨linked, fun other => ?_⟩
    change other ∈ (policy.onRemove frameId).frames ↔ _
    rw [frames, mem_filter, decide_eq_true_iff, and_comm]
    rfl
  | lruK policy => exact ⟨trivial, fun other => AList.mem_erase⟩
  | clock policy =>
    have ring := ClockReplacementPolicy.ring_onRemove policy frameId
    constructor
    · change (policy.onRemove frameId).ring.Nodup
      rw [ring]
      exact List.Nodup.erase frameId sound
    · intro other
      change other ∈ (policy.onRemove frameId).ring ↔ _
      rw [ring, List.Nodup.mem_erase_iff sound]
      rfl

theorem insert_spec (sound : policy.Sound) (frameId : FrameId) :
    (policy.notify (.insert frameId)).Sound ∧
      ∀ other, (policy.notify (.insert frameId)).Tracks other ↔
        other = frameId ∨ policy.Tracks other := by
  cases policy with
  | ordered policy =>
    obtain ⟨linked, frames⟩ := OrderedReplacementPolicy.Linked.onInsert sound frameId
    refine ⟨linked, fun other => ?_⟩
    change other ∈ (policy.onInsert frameId).frames ↔ other = frameId ∨ other ∈ policy.frames
    rw [frames, mem_append, mem_filter, decide_eq_true_iff, mem_singleton]
    tauto
  | lruK policy =>
    refine ⟨trivial, fun other => ?_⟩
    change other ∈ AList.insert frameId _ (AList.erase frameId policy.histories) ↔
      other = frameId ∨ other ∈ policy.histories
    rw [AList.mem_insert, AList.mem_erase]
    tauto
  | clock policy =>
    obtain ⟨once, removed⟩ := @remove_spec (.clock policy) sound frameId
    have absent : frameId ∉ (policy.onRemove frameId).ring := fun member =>
      ((removed frameId).mp member).1 rfl
    constructor
    · exact List.Nodup.append once (nodup_singleton _) (by simpa using absent)
    · intro other
      have left := removed other
      change other ∈ (policy.onRemove frameId).ring ++ [frameId] ↔ _
      change other ∈ (policy.onRemove frameId).ring ↔ _ at left
      rw [mem_append, mem_singleton, left]
      tauto

theorem access_spec (sound : policy.Sound) (member : policy.Tracks frameId) :
    (policy.notify (.access frameId)).Sound ∧
      ∀ other, (policy.notify (.access frameId)).Tracks other ↔ policy.Tracks other := by
  cases policy with
  | ordered policy =>
    cases touch : policy.touchOnAccess with
    | false =>
      have same : policy.onAccess frameId = policy := by
        simp [OrderedReplacementPolicy.onAccess, touch]
      simpa only [notify, OrderedReplacementPolicy.notify, same, iff_self, implies_true,
        and_true] using sound
    | true =>
      obtain ⟨linked, frames⟩ :=
        OrderedReplacementPolicy.Linked.onAccess sound touch member
      refine ⟨linked, fun other => ?_⟩
      change other ∈ (policy.onAccess frameId).frames ↔ other ∈ policy.frames
      rw [frames, mem_append, mem_filter, decide_eq_true_iff, mem_singleton]
      by_cases same : other = frameId
      · simp [same, show frameId ∈ policy.frames from member]
      · simp [same]
  | lruK policy =>
    refine ⟨trivial, fun other => ?_⟩
    change other ∈ AList.insert frameId _ policy.histories ↔ other ∈ policy.histories
    rw [AList.mem_insert]
    exact or_iff_right_of_imp fun same => same ▸ member
  | clock policy =>
    have ring : (policy.onAccess frameId).ring = policy.ring := by
      rw [ClockReplacementPolicy.onAccess]
      split <;> rfl
    simpa only [notify, ClockReplacementPolicy.notify, Sound, Tracks, ring, iff_self,
      implies_true, and_true] using sound

theorem pin_spec (sound : policy.Sound) (frameId : FrameId) :
    (policy.notify (.pin frameId)).Sound ∧
      ∀ other, (policy.notify (.pin frameId)).Tracks other ↔ policy.Tracks other := by
  cases policy <;> exact ⟨sound, fun other => Iff.rfl⟩

theorem unpin_spec (sound : policy.Sound) (frameId : FrameId) :
    (policy.notify (.unpin frameId)).Sound ∧
      ∀ other, (policy.notify (.unpin frameId)).Tracks other ↔ policy.Tracks other := by
  cases policy <;> exact ⟨sound, fun other => Iff.rfl⟩

theorem choose_spec (sound : policy.Sound) (walk : Walk) (isReplaceable : FrameId → Bool) :
    (policy.chooseVictim walk isReplaceable).1.Sound ∧
      ∀ other, (policy.chooseVictim walk isReplaceable).1.Tracks other ↔ policy.Tracks other := by
  cases policy with
  | ordered policy => exact ⟨sound, fun other => Iff.rfl⟩
  | lruK policy => exact ⟨trivial, fun other => Iff.rfl⟩
  | clock policy =>
    have ring : (policy.chooseVictim isReplaceable).1.ring = policy.ring := by
      rw [ClockReplacementPolicy.chooseVictim]
      split_ifs
      · rfl
      · rw [ClockReplacementPolicy.scan_ring]
    simpa only [chooseVictim, Sound, Tracks, ring, iff_self, implies_true, and_true] using sound

end Policy

namespace Manager

structure Consistent (manager : Manager) : Prop where
  sound : manager.policy.Sound
  tracked : ∀ frameId, manager.policy.Tracks frameId ↔ frameId ∈ manager.frames

variable {manager : Manager}

theorem init_consistent (type : PolicyType) (capacity : Nat) :
    (init type capacity).Consistent := by
  obtain ⟨sound, empty⟩ := Policy.create_sound type
  exact ⟨sound, fun frameId => iff_of_false (empty frameId) (AList.notMem_empty frameId)⟩

theorem Consistent.congr {other : Manager} (consistent : manager.Consistent)
    (policy : other.policy.Sound ∧ ∀ frameId, other.policy.Tracks frameId ↔
      manager.policy.Tracks frameId) (frames : other.frames = manager.frames) :
    other.Consistent :=
  ⟨policy.1, fun frameId => by rw [policy.2, consistent.tracked, frames]⟩

theorem get_consistent (consistent : manager.Consistent) (frameId : FrameId) :
    (manager.get frameId).1.Consistent := by
  rw [get]
  cases found : manager.frames.lookup frameId with
  | none => exact consistent
  | some frame =>
    have member : frameId ∈ manager.frames := AList.lookup_isSome.mp (by rw [found]; rfl)
    obtain ⟨accessed, same⟩ := Policy.access_spec consistent.sound
      ((consistent.tracked frameId).mpr member)
    obtain ⟨pinned, kept⟩ := Policy.pin_spec accessed frameId
    exact consistent.congr ⟨pinned, fun other => (kept other).trans (same other)⟩ rfl

theorem alloc_consistent (consistent : manager.Consistent) (frameId : FrameId) :
    (manager.alloc frameId).1.Consistent := by
  rw [alloc]
  cases found : manager.frames.lookup frameId with
  | some frame => exact get_consistent consistent frameId
  | none =>
    cases manager.frees with
    | nil => exact consistent
    | cons frame rest =>
      obtain ⟨inserted, more⟩ := Policy.insert_spec consistent.sound frameId
      obtain ⟨pinned, kept⟩ := Policy.pin_spec inserted frameId
      refine ⟨pinned, fun other => ?_⟩
      change _ ↔ other ∈ manager.frames.insert frameId frame
      rw [AList.mem_insert, ← consistent.tracked]
      exact (kept other).trans (more other)

theorem free_consistent (consistent : manager.Consistent) (frameId : FrameId) (frame : Nat) :
    (manager.free frameId frame).Consistent := by
  obtain ⟨unpinned, same⟩ := Policy.unpin_spec consistent.sound frameId
  obtain ⟨removed, fewer⟩ := Policy.remove_spec unpinned frameId
  refine ⟨removed, fun other => ?_⟩
  change _ ↔ other ∈ manager.frames.erase frameId
  rw [AList.mem_erase, ← consistent.tracked, ← same]
  exact fewer other

theorem choose_consistent (walk : Walk) (count : Nat) (consistent : manager.Consistent) :
    (choose walk count manager).1.Consistent := by
  fun_induction choose walk count manager with
  | case1 => exact consistent
  | case2 | case3 | case5 =>
    exact consistent.congr (Policy.choose_spec consistent.sound walk _) rfl
  | case4 count manager _ _ victim _ frame _ _ _ ih =>
    have asked := Policy.choose_spec consistent.sound walk manager.isReplaceable
    obtain ⟨pinned, kept⟩ := Policy.pin_spec asked.1 _
    exact ih (consistent.congr ⟨pinned, fun other => (kept other).trans (asked.2 other)⟩ rfl)

theorem purge_consistent (purger : Nat → Bool) (chosen : List Nat)
    (consistent : manager.Consistent) : (purge purger chosen manager).1.Consistent := by
  induction chosen generalizing manager with
  | nil => exact consistent
  | cons frame rest tailConsistent =>
    rw [purge]
    dsimp only
    split_ifs
    · exact tailConsistent (free_consistent consistent _ frame)
    · exact tailConsistent (consistent.congr (Policy.unpin_spec consistent.sound _) rfl)

theorem call_consistent (consistent : manager.Consistent) (action : Call) :
    (manager.call action).Consistent := by
  cases action with
  | get frameId => exact get_consistent consistent frameId
  | alloc frameId => exact alloc_consistent consistent frameId
  | free frameId frame => exact free_consistent consistent frameId frame
  | unpin frame => exact consistent.congr ⟨consistent.sound, fun _ => Iff.rfl⟩ rfl
  | purgeFrames walk count purger =>
    exact purge_consistent purger _ (choose_consistent walk _ consistent)

def pins (manager : Manager) (frame : Nat) : BitVec 32 :=
  (manager.memory frame).pinCount

theorem pins_set_pins (frame : Nat) (change : BitVec 32) (other : Nat) :
    (manager.setPins frame change).pins other =
      manager.pins other + if other = frame then change else 0 := by
  by_cases same : other = frame
  · simp [pins, setPins, same]
  · simp [pins, setPins, same]

structure Chosen (before after : Manager) (chosen : List Nat) : Prop where
  once : chosen.Nodup
  unpinned : ∀ frame ∈ chosen, before.pins frame = 0
  pins : ∀ frame, after.pins frame = before.pins frame + if frame ∈ chosen then 1 else 0
  frames : after.frames = before.frames
  ids : ∀ frame, (after.memory frame).frameId = (before.memory frame).frameId

theorem chosen_none {after : Manager} (memory : after.memory = manager.memory)
    (frames : after.frames = manager.frames) : Chosen manager after [] :=
  ⟨nodup_nil, by simp, by simp [pins, memory], frames, by simp [memory]⟩

theorem ids_set_pins (frame : Nat) (change : BitVec 32) (other : Nat) :
    ((manager.setPins frame change).memory other).frameId = (manager.memory other).frameId := by
  by_cases same : other = frame <;> simp [setPins, same]

theorem Chosen.cons {asked after : Manager} {frame : Nat} {rest : List Nat}
    (free : manager.pins frame = 0) (memory : asked.memory = (manager.setPins frame 1).memory)
    (frames : asked.frames = manager.frames) (later : Chosen asked after rest) :
    Chosen manager after (frame :: rest) := by
  have first : ∀ other, asked.pins other = manager.pins other + if other = frame then 1 else 0 := by
    intro other
    rw [← pins_set_pins, Manager.pins, memory, Manager.pins]
  have absent : frame ∉ rest := by
    intro again
    have zero := later.unpinned frame again
    rw [first, if_pos rfl, free] at zero
    exact absurd zero (by decide)
  refine ⟨nodup_cons.mpr ⟨absent, later.once⟩, ?_, ?_, later.frames.trans frames, ?_⟩
  · intro other member
    rcases mem_cons.mp member with same | among
    · rw [same, free]
    · have zero := later.unpinned other among
      have different : other ≠ frame := fun same => absent (same ▸ among)
      rwa [first, if_neg different, add_zero] at zero
  · intro other
    rw [later.pins, first]
    by_cases same : other = frame
    · simp [same, absent]
    · simp [same]
  · intro other
    rw [later.ids, memory, ids_set_pins]

theorem choose_chosen (walk : Walk) (count : Nat) (manager : Manager) :
    Chosen manager (choose walk count manager).1 (choose walk count manager).2 := by
  fun_induction choose walk count manager with
  | case1 | case2 | case3 | case5 => exact chosen_none rfl rfl
  | case4 count manager _ asked victim _ frame _ free _ ih =>
    exact .cons free (by rfl) (by rfl) ih

/-- The frames whose callback succeeds are freed and leave the map; all chosen frames lose the
pin that the choice gave them. -/
structure Purged (purger : Nat → Bool) (chosen : List Nat) (before after : Manager)
    (freed : List Nat) : Prop where
  selected : freed = chosen.filter purger
  pins : ∀ frame, after.pins frame = before.pins frame - if frame ∈ chosen then 1 else 0
  frames : ∀ frameId, frameId ∈ after.frames ↔
    frameId ∈ before.frames ∧ ∀ frame ∈ freed, (before.memory frame).frameId ≠ frameId

theorem pins_free (frameId : FrameId) (frame other : Nat) :
    (manager.free frameId frame).pins other =
      manager.pins other - if other = frame then 1 else 0 := by
  by_cases same : other = frame
  · simp [pins, free, notify, same]
  · simp [pins, free, notify, same]

theorem free_frames (frameId other : FrameId) (frame : Nat) :
    other ∈ (manager.free frameId frame).frames ↔ other ≠ frameId ∧ other ∈ manager.frames :=
  AList.mem_erase

theorem free_ids {frame other : Nat} (different : other ≠ frame) :
    ((manager.free frameId frame).memory other).frameId = (manager.memory other).frameId := by
  simp [free, notify, different]

theorem purge_purged (purger : Nat → Bool) (chosen : List Nat) (once : chosen.Nodup)
    (manager : Manager) :
    Purged purger chosen manager (purge purger chosen manager).1
      (purge purger chosen manager).2 := by
  induction chosen generalizing manager with
  | nil => exact ⟨rfl, by simp [purge], by simp [purge]⟩
  | cons frame rest tailPurged =>
    obtain ⟨absent, later⟩ := nodup_cons.mp once
    rw [purge]
    dsimp only
    split_ifs with success
    · have purged := tailPurged later (manager.free (manager.memory frame).frameId frame)
      refine ⟨by simp [success, purged.selected], ?_, ?_⟩
      · intro other
        rw [purged.pins, pins_free]
        by_cases same : other = frame <;> simp [same, absent]
      · intro frameId
        rw [purged.frames, free_frames]
        have ids : ∀ other ∈ (purge purger rest
            (manager.free (manager.memory frame).frameId frame)).2,
            ((manager.free (manager.memory frame).frameId frame).memory other).frameId =
              (manager.memory other).frameId := by
          intro other member
          rw [purged.selected] at member
          exact free_ids fun same => absent (same ▸ (mem_filter.mp member).1)
        simp only [forall_mem_cons, and_assoc]
        constructor
        · rintro ⟨different, inside, others⟩
          exact ⟨inside, different.symm, fun other member => ids other member ▸ others other member⟩
        · rintro ⟨inside, different, others⟩
          exact ⟨different.symm, inside, fun other member =>
            (ids other member).symm ▸ others other member⟩
    · have purged := tailPurged later
        ((manager.setPins frame (-1)).notify (.unpin (manager.memory frame).frameId))
      refine ⟨purged.selected.trans (filter_cons_of_neg success).symm, ?_, ?_⟩
      · intro other
        rw [purged.pins]
        have first := @pins_set_pins manager frame (-1) other
        change (manager.setPins frame (-1)).pins other - _ = _
        rw [first]
        by_cases same : other = frame <;> simp [same, absent, sub_eq_add_neg]
      · intro frameId
        rw [purged.frames]
        have ids := @ids_set_pins manager frame (-1)
        simp only [notify, ids]
        rfl

/-- The manager after any calls, with any policy. What is freed by a purge was pinned by nobody and
its callback succeeded; the page ids of the other frames stay in the map, and no pin count
changes. -/
theorem frame_manager_consistent (type : PolicyType) (capacity : Nat) (calls : List Call) :
    let manager := calls.foldl call (init type capacity)
    (∀ frameId, manager.policy.Tracks frameId ↔ frameId ∈ manager.frames) ∧
      (∀ frameId first second, ⟨frameId, first⟩ ∈ manager.frames.entries →
        ⟨frameId, second⟩ ∈ manager.frames.entries → first = second) ∧
      ∀ walk count purger,
        let purged := manager.purgeFrames walk count purger
        (∀ frame ∈ purged.2, manager.pins frame = 0 ∧ purger frame = true) ∧
          (∀ frame, purged.1.pins frame = manager.pins frame) ∧
          ∀ frameId, frameId ∈ purged.1.frames ↔ frameId ∈ manager.frames ∧
            ∀ frame ∈ purged.2, (manager.memory frame).frameId ≠ frameId := by
  intro manager
  have consistent : manager.Consistent := by
    apply foldlRecOn calls call (init_consistent type capacity)
    intro state stateConsistent action member
    exact call_consistent stateConsistent action
  refine ⟨consistent.tracked, ?_, ?_⟩
  · intro frameId first second one other
    have found := AList.mem_lookup_iff.mpr one
    exact mem_unique found (AList.mem_lookup_iff.mpr other)
  · intro walk count purger
    have chosen := choose_chosen walk (if count ≤ 0 then 1 else count.toNat) manager
    have purged := purge_purged purger _ chosen.once
      (choose walk (if count ≤ 0 then 1 else count.toNat) manager).1
    refine ⟨?_, ?_, ?_⟩
    · intro frame freed
      rw [purgeFrames, purged.selected] at freed
      obtain ⟨member, success⟩ := mem_filter.mp freed
      exact ⟨chosen.unpinned frame member, success⟩
    · intro frame
      rw [purgeFrames, purged.pins, chosen.pins, add_sub_cancel_right]
    · intro frameId
      rw [purgeFrames, purged.frames, chosen.frames]
      simp only [chosen.ids]

end Manager

end CsuDbms.FrameManagerModel
