import CsuDbms.ReplacementPolicyModel

/-!
# The order in which LRU, FIFO and LRU-K give up frames

The order is defined on the whole history of notifications, the latest one first. Time
is the number of references, that is of insertions and accesses, as it is for the
reference string of LRU-K.
-/

namespace CsuDbms.ReplacementPolicyModel

open DiskBufferPoolModel List Option LRUKReplacementPolicy OrderedReplacementPolicy Choice

variable {frameId : FrameId} {history : List Event}

section History

def references : List Event → Nat
  | [] => 0
  | .insert _ :: earlier => references earlier + 1
  | .access _ :: earlier => references earlier + 1
  | _ :: earlier => references earlier

/-- The times at which a frame was referenced since it was last inserted, latest first. -/
def accesses (frameId : FrameId) : List Event → List Nat
  | [] => []
  | .insert inserted :: earlier =>
    if inserted = frameId then [references earlier] else accesses frameId earlier
  | .access accessed :: earlier =>
    if accessed = frameId ∧ tracked frameId earlier = true then
      references earlier :: accesses frameId earlier
    else accesses frameId earlier
  | .remove removed :: earlier => if removed = frameId then [] else accesses frameId earlier
  | _ :: earlier => accesses frameId earlier

def reported : List Event → Bool
  | [] => true
  | .access accessed :: earlier => tracked accessed earlier && reported earlier
  | _ :: earlier => reported earlier

def lastAccess (history : List Event) (frameId : FrameId) : Nat :=
  (accesses frameId history).headD 0

def insertedAt (history : List Event) (frameId : FrameId) : Nat :=
  (accesses frameId history).getLastD 0

/-- References since the `k`-th last one of the frame, none of them being infinitely far. -/
def backwardDistance (k : Nat) (history : List Event) (frameId : FrameId) : ℕ∞ :=
  match (accesses frameId history)[k - 1]? with
  | none => ⊤
  | some time => ((references history - time : Nat) : ℕ∞)

def LeastRecentlyAccessed (history : List Event) (first second : FrameId) : Prop :=
  lastAccess history first < lastAccess history second

def EarliestInserted (history : List Event) (first second : FrameId) : Prop :=
  insertedAt history first < insertedAt history second

/-- Frames that are equally far, having fewer than `k` references, go least recent first. -/
def LargestBackwardDistance (k : Nat) (history : List Event) (first second : FrameId) : Prop :=
  backwardDistance k history second < backwardDistance k history first ∨
    backwardDistance k history second = backwardDistance k history first ∧
      lastAccess history first < lastAccess history second

/-- `victim` is the first replaceable frame in the order `before`; there is none exactly
if no tracked frame may be replaced. -/
structure FirstReplaceable (history : List Event) (before : FrameId → FrameId → Prop)
    (isReplaceable : FrameId → Bool) (victim : Option FrameId) : Prop where
  found : victim.isSome = true ↔
    ∃ frameId, tracked frameId history = true ∧ isReplaceable frameId = true
  allowed : ∀ frameId ∈ victim, tracked frameId history = true ∧ isReplaceable frameId = true
  first : ∀ frameId ∈ victim, ∀ other, tracked other history = true →
    isReplaceable other = true → other ≠ frameId → before frameId other

theorem accesses_eq_nil (history : List Event) :
    accesses frameId history = [] ↔ tracked frameId history = false := by
  induction history with
  | nil => simp [accesses, tracked]
  | cons event earlier ih =>
    cases event with
    | insert inserted => by_cases same : inserted = frameId <;> simp [accesses, tracked, same, ih]
    | access accessed =>
      by_cases same : accessed = frameId ∧ tracked frameId earlier = true
      · simp [accesses, tracked, same]
      · simp only [accesses, if_neg same, tracked, ih]
    | pin _ => exact ih
    | unpin _ => exact ih
    | remove removed => by_cases same : removed = frameId <;> simp [accesses, tracked, same, ih]

section

variable {time : Nat}

theorem accesses_lt (member : time ∈ accesses frameId history) :
    time < references history := by
  fun_induction accesses frameId history with
  | case1 | case6 => cases member
  | case2 => exact mem_singleton.mp member ▸ Nat.lt_succ_self _
  | case3 _ _ _ ih | case5 _ _ _ ih => exact Nat.lt_succ_of_lt (ih member)
  | case4 accessed earlier _ ih =>
    rcases mem_cons.mp member with rfl | member
    · exact Nat.lt_succ_self _
    · exact Nat.lt_succ_of_lt (ih member)
  | case7 _ _ _ ih => exact ih member
  | case8 event _ _ _ _ ih => cases event <;> simp_all [references]

theorem accesses_apart {first second : FrameId} (ofFirst : time ∈ accesses first history)
    (ofSecond : time ∈ accesses second history) :
    first = second := by
  induction history with
  | nil => exact absurd ofFirst (by simp [accesses])
  | cons event earlier ih =>
    have late : ∀ frameId, references earlier ∉ accesses frameId earlier :=
      fun frameId member => Nat.lt_irrefl _ (accesses_lt member)
    cases event with
    | insert inserted | access accessed | remove removed =>
      simp only [accesses] at ofFirst ofSecond; grind
    | pin _ => exact ih ofFirst ofSecond
    | unpin _ => exact ih ofFirst ofSecond

theorem tracked_of_mem (member : time ∈ accesses frameId history) :
    tracked frameId history = true := by
  by_contra untracked
  rw [(accesses_eq_nil history).mpr (by simpa using untracked)] at member
  exact absurd member (by simp)

end

theorem exists_lastAccess (known : tracked frameId history = true) :
    ∃ earlier, accesses frameId history = lastAccess history frameId :: earlier := by
  cases times : accesses frameId history with
  | nil => rw [(accesses_eq_nil history).mp times] at known; exact absurd known (by simp)
  | cons time earlier => exact ⟨earlier, by simp [lastAccess, times]⟩

end History

section Ordered

namespace OrderedReplacementPolicy

def frames (policy : OrderedReplacementPolicy) : List FrameId :=
  policy.order.map ListNode.frameId

structure Linked (policy : OrderedReplacementPolicy) : Prop where
  fresh : ∀ node ∈ policy.order, node.handle < policy.handles
  unique : (policy.order.map ListNode.handle).Nodup
  once : policy.frames.Nodup
  positions : ∀ frameId node,
    policy.positions.lookup frameId = some node ↔ (⟨node, frameId⟩ : ListNode) ∈ policy.order

variable {policy : OrderedReplacementPolicy} {node : Nat}

section

variable (linked : policy.Linked)
include linked

theorem Linked.handle_eq_iff (found : policy.positions.lookup frameId = some node)
    {other : ListNode} (member : other ∈ policy.order) :
    other.handle = node ↔ other.frameId = frameId := by
  have present := (linked.positions frameId node).mp found
  constructor
  · intro same
    rw [inj_on_of_nodup_map linked.unique member present same]
  · intro same
    rw [inj_on_of_nodup_map linked.once member present same]

theorem Linked.lookup_eq_none :
    policy.positions.lookup frameId = none ↔ frameId ∉ policy.frames := by
  rw [← Option.not_isSome_iff_eq_none, Option.isSome_iff_exists, not_iff_not]
  simp only [linked.positions, frames, List.mem_map]
  constructor
  · rintro ⟨node, member⟩
    exact ⟨_, member, rfl⟩
  · rintro ⟨node, member, rfl⟩
    exact ⟨node.handle, member⟩

theorem Linked.without (found : policy.positions.lookup frameId = some node) :
    policy.order.filter (·.handle ≠ node) = policy.order.filter (·.frameId ≠ frameId) :=
  filter_congr fun _ member => by simp [linked.handle_eq_iff found member]

theorem Linked.only (found : policy.positions.lookup frameId = some node) :
    policy.order.filter (·.handle = node) = [⟨node, frameId⟩] := by
  have present := (linked.positions frameId node).mp found
  have same : policy.order.filter (·.handle = node) =
      policy.order.filter (· = (⟨node, frameId⟩ : ListNode)) := by
    refine filter_congr fun other member => decide_eq_decide.mpr ⟨fun same => ?_, ?_⟩
    · exact inj_on_of_nodup_map linked.unique member present same
    · rintro rfl
      rfl
  rw [same, filter_eq, count_eq_one_of_mem linked.unique.of_map present]
  rfl

theorem Linked.onRemove (frameId : FrameId) :
    (policy.onRemove frameId).Linked ∧
      (policy.onRemove frameId).frames = policy.frames.filter (· ≠ frameId) := by
  rw [OrderedReplacementPolicy.onRemove]
  cases found : policy.positions.lookup frameId with
  | none =>
    refine ⟨linked, (filter_eq_self.mpr fun other member => ?_).symm⟩
    rw [decide_eq_true_eq]
    rintro rfl
    exact linked.lookup_eq_none.mp found member
  | some node =>
    have order := linked.without found
    have sublist : (policy.order.filter (·.frameId ≠ frameId)).Sublist policy.order :=
      filter_sublist
    have left : (policy.order.filter (·.frameId ≠ frameId)).map ListNode.frameId =
        policy.frames.filter (· ≠ frameId) := by
      rw [frames, List.filter_map]
      rfl
    simp only [order]
    refine ⟨⟨fun other member => ?_, ?_, ?_, fun other place => ?_⟩, left⟩
    · exact linked.fresh other (sublist.subset member)
    · exact linked.unique.sublist (sublist.map _)
    · exact linked.once.sublist (sublist.map _)
    · by_cases same : other = frameId
      · subst same
        simp
      · rw [AList.lookup_erase_ne same, linked.positions]
        simp [same]

theorem Linked.push (absent : frameId ∉ policy.frames) {positions : AList fun _ : FrameId => Nat}
    {handles : Nat}
    (known : ∀ other place, other ≠ frameId →
      (positions.lookup other = some place ↔ policy.positions.lookup other = some place))
    (found : positions.lookup frameId = some node)
    (unused : ∀ other ∈ policy.order, other.handle ≠ node) (bound : node < handles)
    (grown : policy.handles ≤ handles) :
    ({ policy with
        order := policy.order ++ [⟨node, frameId⟩]
        positions := positions
        handles := handles } : OrderedReplacementPolicy).Linked := by
  refine ⟨forall_mem_append.mpr ⟨?_, forall_mem_singleton.mpr bound⟩, ?_, ?_,
    fun other place => ?_⟩
  · exact fun other old => Nat.lt_of_lt_of_le (linked.fresh other old) grown
  · rw [map_append, nodup_append']
    refine ⟨linked.unique, by simp, fun handle old new => ?_⟩
    obtain ⟨other, member, rfl⟩ := mem_map.mp old
    exact unused other member (by simpa using new)
  · rw [frames, map_append, nodup_append']
    refine ⟨linked.once, by simp, fun other old new => absent ?_⟩
    rwa [show other = frameId by simpa using new] at old
  · by_cases same : other = frameId
    · subst same
      simp only [found, some.injEq, mem_append, mem_singleton, ListNode.mk.injEq,
        and_true]
      constructor
      · exact fun same => .inr same.symm
      · rintro (old | same)
        · exact absurd (mem_map_of_mem old) absent
        · exact same.symm
    · simp [known other place same, linked.positions, same]

theorem not_mem_frames_onRemove :
    frameId ∉ (policy.onRemove frameId).frames := by
  rw [(linked.onRemove frameId).2]
  simp

theorem Linked.onInsert (frameId : FrameId) :
    (policy.onInsert frameId).Linked ∧
      (policy.onInsert frameId).frames = policy.frames.filter (· ≠ frameId) ++ [frameId] := by
  obtain ⟨removed, left⟩ := linked.onRemove frameId
  refine ⟨removed.push (not_mem_frames_onRemove linked) (fun other place other_ne => ?_)
    (AList.lookup_insert _) (fun other member => (removed.fresh other member).ne)
    (Nat.lt_succ_self _) (Nat.le_succ _), ?_⟩
  · rw [AList.lookup_insert_ne other_ne]
  · rw [← left]
    simp [OrderedReplacementPolicy.onInsert, frames]

theorem Linked.onAccess (touch : policy.touchOnAccess = true) (member : frameId ∈ policy.frames) :
    (policy.onAccess frameId).Linked ∧
      (policy.onAccess frameId).frames = policy.frames.filter (· ≠ frameId) ++ [frameId] := by
  obtain ⟨removed, left⟩ := linked.onRemove frameId
  cases found : policy.positions.lookup frameId with
  | none => exact absurd member (linked.lookup_eq_none.mp found)
  | some node =>
    have moved := linked.only found
    have absent : frameId ∉ (policy.onRemove frameId).frames := not_mem_frames_onRemove linked
    simp only [OrderedReplacementPolicy.onRemove, found] at removed left absent
    rw [OrderedReplacementPolicy.onAccess, if_pos touch]
    simp only [found, moved]
    refine ⟨removed.push absent (fun other place other_ne => ?_) (AList.lookup_insert _)
      (fun other kept => by simpa using (mem_filter.mp kept).2)
      (linked.fresh _ ((linked.positions frameId node).mp found)) (Nat.le_refl _), ?_⟩
    · rw [AList.lookup_insert_ne other_ne, AList.lookup_erase_ne other_ne]
    · rw [← left]
      simp [frames]

end

structure Follows (policy : OrderedReplacementPolicy) (touch : Bool)
    (time : List Event → FrameId → Nat) (history : List Event) : Prop where
  touch : policy.touchOnAccess = touch
  linked : policy.Linked
  protected tracked : ∀ frameId, frameId ∈ policy.frames ↔ tracked frameId history = true
  sorted : policy.frames.Pairwise fun first second => time history first < time history second

theorem create_follows (touch : Bool) (time : List Event → FrameId → Nat) :
    (create touch).Follows touch time [] :=
  ⟨rfl, ⟨by simp [create], by simp [create], by simp [create, frames], by simp [create]⟩,
    by simp [create, frames, tracked], by simp [create, frames]⟩

variable {touch : Bool} {time : List Event → FrameId → Nat} {changed : OrderedReplacementPolicy}
  {event : Event}

section

variable (follows : policy.Follows touch time history)
include follows

theorem Follows.without (sameTouch : changed.touchOnAccess = policy.touchOnAccess)
    (linked : changed.Linked) (frames : changed.frames = policy.frames.filter (· ≠ frameId))
    (known : ∀ other, tracked other (event :: history) = true ↔
      other ≠ frameId ∧ tracked other history = true)
    (times : ∀ other, other ≠ frameId → time (event :: history) other = time history other) :
    changed.Follows touch time (event :: history) := by
  refine ⟨sameTouch.trans follows.touch, linked, fun other => ?_, ?_⟩
  · rw [frames, mem_filter, known, ← follows.tracked]
    simp [and_comm]
  · rw [frames]
    refine (follows.sorted.sublist filter_sublist).imp_of_mem ?_
    intro first second inFirst inSecond earlier
    rw [times first (by simpa using (mem_filter.mp inFirst).2),
      times second (by simpa using (mem_filter.mp inSecond).2)]
    exact earlier

theorem Follows.touched (sameTouch : changed.touchOnAccess = policy.touchOnAccess)
    (linked : changed.Linked)
    (frames : changed.frames = policy.frames.filter (· ≠ frameId) ++ [frameId])
    (known : ∀ other, tracked other (event :: history) = true ↔
      other = frameId ∨ tracked other history = true)
    (times : ∀ other, other ≠ frameId → time (event :: history) other = time history other)
    (latest : time (event :: history) frameId = references history)
    (past : ∀ other, tracked other history = true →
      time history other < references history) :
    changed.Follows touch time (event :: history) := by
  refine ⟨sameTouch.trans follows.touch, linked, fun other => ?_, ?_⟩
  · rw [frames, mem_append, mem_singleton, mem_filter, known, ← follows.tracked]
    by_cases same : other = frameId <;> simp [same]
  · rw [frames, pairwise_append]
    refine ⟨(follows.sorted.sublist filter_sublist).imp_of_mem ?_, pairwise_singleton ..,
      fun first inFirst second inSecond => ?_⟩
    · intro first second inFirst inSecond earlier
      rw [times first (by simpa using (mem_filter.mp inFirst).2),
        times second (by simpa using (mem_filter.mp inSecond).2)]
      exact earlier
    · obtain ⟨member, other⟩ := mem_filter.mp inFirst
      rw [mem_singleton.mp inSecond, latest, times first (by simpa using other)]
      exact past first ((follows.tracked first).mp member)

theorem Follows.unchanged
    (known : ∀ other, tracked other (event :: history) =
      tracked other history)
    (times : ∀ other, tracked other history = true →
      time (event :: history) other = time history other) :
    policy.Follows touch time (event :: history) := by
  refine ⟨follows.touch, follows.linked, fun other => ?_, ?_⟩
  · rw [known, follows.tracked]
  · refine follows.sorted.imp_of_mem ?_
    intro first second inFirst inSecond earlier
    rw [times first ((follows.tracked first).mp inFirst),
      times second ((follows.tracked second).mp inSecond)]
    exact earlier

end

structure Timed (time : List Event → FrameId → Nat) : Prop where
  past : ∀ history frameId, tracked frameId history = true →
    time history frameId < references history
  inserted : ∀ history frameId, time (.insert frameId :: history) frameId = references history
  other : ∀ history frameId other, other ≠ frameId →
    time (.insert frameId :: history) other = time history other ∧
    time (.access frameId :: history) other = time history other ∧
    time (.remove frameId :: history) other = time history other
  pinned : ∀ history frameId other, time (.pin frameId :: history) other = time history other ∧
    time (.unpin frameId :: history) other = time history other

theorem touchOnAccess_onRemove (policy : OrderedReplacementPolicy) (frameId : FrameId) :
    (policy.onRemove frameId).touchOnAccess = policy.touchOnAccess := by
  rw [onRemove]
  split <;> rfl

theorem touchOnAccess_onAccess (policy : OrderedReplacementPolicy) (frameId : FrameId) :
    (policy.onAccess frameId).touchOnAccess = policy.touchOnAccess := by
  rw [onAccess]
  by_cases touch : policy.touchOnAccess = true
  · rw [if_pos touch]
    split <;> rfl
  · rw [if_neg touch]

theorem Follows.notify (follows : policy.Follows touch time history) (timed : Timed time)
    (access : ∀ frameId, event = .access frameId →
      (policy.onAccess frameId).Follows touch time (event :: history)) :
    (policy.notify event).Follows touch time (event :: history) := by
  cases event with
  | insert frameId =>
    obtain ⟨linked, frames⟩ := follows.linked.onInsert frameId
    refine follows.touched (touchOnAccess_onRemove policy frameId) linked frames
      (fun other => ?_) (fun other apart => (timed.other history frameId other apart).1)
      (timed.inserted history frameId) (timed.past history)
    simp [tracked, @eq_comm _ frameId]
  | access frameId => exact access frameId rfl
  | pin frameId =>
    exact follows.unchanged (fun _ => rfl) fun other _ => (timed.pinned history frameId other).1
  | unpin frameId =>
    exact follows.unchanged (fun _ => rfl) fun other _ => (timed.pinned history frameId other).2
  | remove frameId =>
    obtain ⟨linked, frames⟩ := follows.linked.onRemove frameId
    refine follows.without (touchOnAccess_onRemove policy frameId) linked frames
      (fun other => ?_) fun other apart => (timed.other history frameId other apart).2.2
    simp [tracked, @eq_comm _ frameId]

def after (policy : OrderedReplacementPolicy) (history : List Event) : OrderedReplacementPolicy :=
  history.foldr (fun event policy => policy.notify event) policy

theorem Follows.firstReplaceable (follows : policy.Follows touch time history)
    (isReplaceable : FrameId → Bool) :
    FirstReplaceable history (fun first second => time history first < time history second)
      isReplaceable (policy.chooseVictim isReplaceable) := by
  have members := follows.tracked
  constructor
  · rw [chooseVictim, find?_isSome]
    exact exists_congr fun frameId => and_congr_left fun _ => members frameId
  · intro frameId chosen
    exact ⟨(members frameId).mp (mem_of_find?_eq_some chosen), find?_some chosen⟩
  · intro frameId chosen other known allowed apart
    obtain ⟨_, before, behind, order, refused⟩ := find?_eq_some_iff_append.mp chosen
    have sorted := follows.sorted
    rw [frames, order, pairwise_append, pairwise_cons] at sorted
    have member := (members other).mpr known
    rw [frames, order] at member
    rcases mem_append.mp member with skipped | member
    · exact absurd allowed (by simpa using refused other skipped)
    · rcases mem_cons.mp member with same | later
      · exact absurd same apart
      · exact sorted.2.1.1 other later

theorem lastAccess_timed : Timed lastAccess := by
  refine ⟨fun history frameId known => ?_, fun history frameId => ?_,
    fun history frameId other apart => ?_, fun history frameId other => ⟨rfl, rfl⟩⟩
  · obtain ⟨earlier, times⟩ := exists_lastAccess known
    exact accesses_lt (times ▸ mem_cons_self)
  · simp [lastAccess, accesses]
  · simp [lastAccess, accesses, apart.symm]

theorem insertedAt_timed : Timed insertedAt := by
  refine ⟨fun history frameId known => ?_, fun history frameId => ?_,
    fun history frameId other apart => ?_, fun history frameId other => ⟨rfl, rfl⟩⟩
  · obtain ⟨earlier, times⟩ := exists_lastAccess known
    have member : insertedAt history frameId ∈ accesses frameId history := by
      rw [insertedAt, times, getLastD_cons]
      exact getLastD_mem_cons ..
    exact accesses_lt member
  · simp [insertedAt, accesses]
  · simp [insertedAt, accesses, apart.symm]

theorem lru_follows (known : reported history = true) :
    (lruReplacementPolicy.after history).Follows true lastAccess history := by
  induction history with
  | nil => exact create_follows true lastAccess
  | cons event earlier ih =>
    have rest : reported earlier = true := by
      cases event <;> simp_all [reported]
    refine (ih rest).notify lastAccess_timed fun frameId isAccess => ?_
    subst isAccess
    rw [reported, Bool.and_eq_true] at known
    have member := ((ih rest).tracked frameId).mpr known.1
    obtain ⟨linked, frames⟩ := (ih rest).linked.onAccess (ih rest).touch member
    refine (ih rest).touched ?_ linked frames (fun other => ?_)
      (fun other apart => (lastAccess_timed.other earlier frameId other apart).2.1) ?_
      (lastAccess_timed.past earlier)
    · exact touchOnAccess_onAccess _ frameId
    · exact (or_iff_right_of_imp fun same => same ▸ known.1).symm
    · simp [lastAccess, accesses, known.1]

theorem fifo_follows (history : List Event) :
    (fifoReplacementPolicy.after history).Follows false insertedAt history := by
  induction history with
  | nil => exact create_follows false insertedAt
  | cons event earlier ih =>
    refine ih.notify insertedAt_timed fun frameId isAccess => ?_
    subst isAccess
    have untouched : (fifoReplacementPolicy.after earlier).onAccess frameId =
        fifoReplacementPolicy.after earlier := by
      rw [onAccess, if_neg (by simp [ih.touch])]
    rw [untouched]
    refine ih.unchanged (fun _ => rfl) fun other tracked => ?_
    obtain ⟨first, times⟩ := exists_lastAccess tracked
    by_cases same : frameId = other
    · simp [insertedAt, accesses, same, tracked, times]
    · simp [insertedAt, accesses, same]

end OrderedReplacementPolicy

end Ordered

section LRUK

namespace LRUKReplacementPolicy

def stamp (time : Nat) : UInt64 := UInt64.ofNat (time + 1)

structure Follows (policy : LRUKReplacementPolicy) (history : List Event) : Prop where
  clock : policy.currentTimestamp = UInt64.ofNat (references history)
  stamps : ∀ frameId, policy.histories.lookup frameId =
    if tracked frameId history = true then
      some (((accesses frameId history).take K).reverse.map stamp)
    else none

variable {policy : LRUKReplacementPolicy}

theorem stamps_push (time : Nat) (times : List Nat) :
    (if ((times.take K).reverse.map stamp).length = K then ((times.take K).reverse.map stamp).tail
      else (times.take K).reverse.map stamp) ++ [stamp time] =
      (((time :: times).take K).reverse.map stamp) := by
  match times with
  | [] => simp [K]
  | [_] => simp [K]
  | _ :: _ :: _ => simp [K]

section

variable (follows : policy.Follows history)
include follows

theorem Follows.recordAccess {next : List Event}
    (counted : references next = references history + 1) (known : tracked frameId next = true)
    (times : accesses frameId next = references history :: accesses frameId history)
    (others : ∀ other, other ≠ frameId →
      tracked other next = tracked other history ∧ accesses other next = accesses other history) :
    (policy.recordAccess frameId).Follows next := by
  have kept : (policy.histories.lookup frameId).getD [] =
      ((accesses frameId history).take K).reverse.map stamp := by
    rw [follows.stamps]
    by_cases tracked : tracked frameId history = true
    · rw [if_pos tracked, getD_some]
    · rw [if_neg tracked, (accesses_eq_nil history).mpr (by simpa using tracked)]
      rfl
  have now : policy.currentTimestamp + 1 = stamp (references history) := by
    rw [follows.clock, stamp, UInt64.ofNat_add]
    rfl
  refine ⟨?_, fun other => ?_⟩
  · rw [counted]
    exact now
  · simp only [LRUKReplacementPolicy.recordAccess, kept, now]
    by_cases same : other = frameId
    · subst same
      rw [AList.lookup_insert, if_pos known, times, stamps_push]
    · rw [AList.lookup_insert_ne same, follows.stamps, (others other same).1,
        (others other same).2]

theorem Follows.unchanged {event : Event}
    (counted : references (event :: history) = references history)
    (known : ∀ other, tracked other (event :: history) = tracked other history)
    (times : ∀ other, accesses other (event :: history) = accesses other history) :
    policy.Follows (event :: history) :=
  ⟨counted ▸ follows.clock, fun other => by rw [follows.stamps, known, times]⟩

theorem Follows.onRemove (frameId : FrameId) :
    (policy.onRemove frameId).Follows (.remove frameId :: history) := by
  refine ⟨follows.clock, fun other => ?_⟩
  rw [LRUKReplacementPolicy.onRemove]
  by_cases same : other = frameId
  · subst same
    simp [tracked]
  · rw [AList.lookup_erase_ne same, follows.stamps]
    simp [tracked, accesses, Ne.symm same]

end

def after (history : List Event) : LRUKReplacementPolicy :=
  history.foldr (fun event policy => policy.notify event) create

theorem after_follows (known : reported history = true) :
    (after history).Follows history := by
  induction history with
  | nil => exact ⟨rfl, fun _ => rfl⟩
  | cons event earlier ih =>
    cases event with
    | insert frameId =>
      -- the removal first, as the source does it, and then one reference
      have removed := (ih known).onRemove frameId
      refine removed.recordAccess rfl ?_ ?_ fun other apart => ⟨?_, ?_⟩
      · simp [tracked]
      · simp [accesses, references]
      · simp [tracked, apart.symm]
      · simp [accesses, apart.symm]
    | access frameId =>
      rw [reported, Bool.and_eq_true] at known
      refine (ih known.2).recordAccess rfl known.1 ?_ fun other apart => ⟨rfl, ?_⟩
      · rw [accesses, if_pos ⟨rfl, known.1⟩]
      · rw [accesses, if_neg fun same => apart same.1.symm]
    | pin frameId | unpin frameId => exact (ih known).unchanged rfl (fun _ => rfl) fun _ => rfl
    | remove frameId => exact (ih known).onRemove frameId

def Choice.rank (choice : Choice) : Bool ×ₗ Nat :=
  toLex (!choice.victimIsCold, choice.oldestRelevantAccess.toNat)

theorem replacedBy_iff (best new : Choice) : best.replacedBy new = true ↔ new.rank < best.rank := by
  rw [rank, rank, Prod.Lex.toLex_lt_toLex, replacedBy]
  cases new.victimIsCold <;> cases best.victimIsCold <;> simp [UInt64.lt_iff_toNat_lt]

theorem foldl_consider (isReplaceable : FrameId → Bool)
    (visited : List (Sigma fun _ : FrameId => List UInt64)) (found : Option Choice) :
    visited.foldl (consider isReplaceable) found =
      (visited.filterMap (candidate isReplaceable)).foldl
        (List.argAux fun new best => new.rank < best.rank) found := by
  induction visited generalizing found with
  | nil => rfl
  | cons entry rest ih =>
    rw [foldl_cons, ih, filterMap_cons]
    cases new : candidate isReplaceable entry with
    | none => simp [consider, new]
    | some choice =>
      simp only [foldl_cons]
      congr 1
      cases found with
      | none => simp [consider, new, argAux]
      | some best => simp [consider, new, argAux, replacedBy_iff]

theorem chooseVictim_eq (isReplaceable : FrameId → Bool)
    (visited : List (Sigma fun _ : FrameId => List UInt64)) :
    chooseVictim isReplaceable visited =
      ((visited.filterMap (candidate isReplaceable)).argmin rank).map victim := by
  rw [chooseVictim, foldl_consider]
  rfl

structure Candidate (history : List Event) (choice : Choice) (time : Nat) : Prop where
  stamp : choice.oldestRelevantAccess = stamp time
  times : if choice.victimIsCold then accesses choice.victim history = [time]
    else ∃ latest earlier, accesses choice.victim history = latest :: time :: earlier

theorem candidate_stamps (isReplaceable : FrameId → Bool) (frameId : FrameId) (choice : Choice) :
    candidate isReplaceable ⟨frameId, ((accesses frameId history).take K).reverse.map stamp⟩ =
        some choice ↔
      choice.victim = frameId ∧ isReplaceable frameId = true ∧
        ∃ time, Candidate history choice time := by
  obtain ⟨victim, cold, oldest⟩ := choice
  constructor
  · intro made
    match times : accesses frameId history with
    | [] => simp [times, candidate] at made
    | [time] =>
      simp [times, candidate, K] at made
      obtain ⟨allowed, rfl, rfl, rfl⟩ := made
      exact ⟨rfl, allowed, time, rfl, by simpa using times⟩
    | latest :: time :: earlier =>
      simp [times, candidate, K] at made
      obtain ⟨allowed, rfl, rfl, rfl⟩ := made
      exact ⟨rfl, allowed, time, rfl, by simpa using ⟨latest, earlier, times⟩⟩
  · rintro ⟨rfl, allowed, time, rfl, times⟩
    cases cold with
    | true =>
      simp only [if_true] at times
      simp [times, candidate, K, allowed]
    | false =>
      obtain ⟨latest, earlier, times⟩ := times
      simp only at times
      simp [times, candidate, K, allowed]

section Candidates

variable {choice : Choice} {time : Nat}

section

variable (known : Candidate history choice time)
include known

theorem Candidate.cold (cold : choice.victimIsCold = true) :
    accesses choice.victim history = [time] := by
  simpa only [cold, if_true] using known.times

theorem Candidate.hot (hot : choice.victimIsCold = false) :
    ∃ latest earlier, accesses choice.victim history = latest :: time :: earlier := by
  simpa [hot] using known.times

theorem Candidate.mem :
    time ∈ accesses choice.victim history := by
  cases cold : choice.victimIsCold with
  | true => simp [known.cold cold]
  | false =>
    obtain ⟨latest, earlier, times⟩ := known.hot cold
    simp [times]

protected theorem Candidate.tracked :
    tracked choice.victim history = true := tracked_of_mem known.mem

theorem Candidate.toNat (bounded : references history < 2 ^ 64) :
    choice.oldestRelevantAccess.toNat = time + 1 := by
  have past := accesses_lt known.mem
  rw [known.stamp, LRUKReplacementPolicy.stamp, UInt64.toNat_ofNat_of_lt']
  exact Nat.lt_of_le_of_lt past bounded

theorem Candidate.distance_cold (cold : choice.victimIsCold = true) :
    backwardDistance K history choice.victim = ⊤ ∧ lastAccess history choice.victim = time := by
  simp [backwardDistance, lastAccess, known.cold cold, K]

theorem Candidate.distance_hot (hot : choice.victimIsCold = false) :
    backwardDistance K history choice.victim = ((references history - time : Nat) : ℕ∞) := by
  obtain ⟨latest, earlier, times⟩ := known.hot hot
  simp [backwardDistance, times, K]

end

end Candidates

theorem Follows.mem_candidates (follows : policy.Follows history) (isReplaceable : FrameId → Bool)
    {visited : List (Sigma fun _ : FrameId => List UInt64)}
    (walk : visited.Perm policy.histories.entries) (choice : Choice) :
    choice ∈ visited.filterMap (candidate isReplaceable) ↔
      isReplaceable choice.victim = true ∧ ∃ time, Candidate history choice time := by
  rw [mem_filterMap]
  constructor
  · rintro ⟨⟨frameId, stamps⟩, member, made⟩
    have found := AList.mem_lookup_iff.mpr (walk.mem_iff.mp member)
    rw [follows.stamps, mem_def] at found
    by_cases known : tracked frameId history = true
    · rw [if_pos known, some.injEq] at found
      rw [← found] at made
      obtain ⟨rfl, allowed, time⟩ := (candidate_stamps isReplaceable frameId choice).mp made
      exact ⟨allowed, time⟩
    · rw [if_neg known] at found
      exact absurd found (by simp)
  · rintro ⟨allowed, time, known⟩
    refine ⟨_, walk.mem_iff.mpr (AList.mem_lookup_iff.mp (follows.stamps choice.victim ▸
      mem_def.mpr (if_pos known.tracked))), ?_⟩
    exact (candidate_stamps isReplaceable _ choice).mpr ⟨rfl, allowed, time, known⟩

theorem exists_candidate (known : tracked frameId history = true) :
    ∃ choice time, choice.victim = frameId ∧ Candidate history choice time := by
  obtain ⟨rest, times⟩ := exists_lastAccess known
  cases rest with
  | nil => exact ⟨⟨frameId, true, _⟩, _, rfl, rfl, by simpa using times⟩
  | cons time earlier =>
    exact ⟨⟨frameId, false, _⟩, time, rfl, rfl, by simpa using ⟨_, _, times⟩⟩

theorem Candidate.before {best other : Choice} {time later : Nat}
    (bestKnown : Candidate history best time) (otherKnown : Candidate history other later)
    (bounded : references history < 2 ^ 64) (apart : other.victim ≠ best.victim)
    (least : best.rank ≤ other.rank) :
    LargestBackwardDistance K history best.victim other.victim := by
  have different : time ≠ later := by
    rintro rfl
    exact apart (accesses_apart otherKnown.mem bestKnown.mem)
  rw [rank, rank, Prod.Lex.toLex_le_toLex, bestKnown.toNat bounded,
    otherKnown.toNat bounded] at least
  cases bestCold : best.victimIsCold with
  | true =>
    obtain ⟨bestFar, bestLast⟩ := bestKnown.distance_cold bestCold
    cases otherCold : other.victimIsCold with
    | true =>
      obtain ⟨otherFar, otherLast⟩ := otherKnown.distance_cold otherCold
      refine .inr ⟨otherFar.trans bestFar.symm, ?_⟩
      simp only [bestCold, otherCold, lt_irrefl, false_or, true_and] at least
      rw [bestLast, otherLast]
      omega
    | false =>
      left
      rw [bestFar, otherKnown.distance_hot otherCold]
      exact ENat.natCast_lt_top _
  | false =>
    cases otherCold : other.victimIsCold with
    | true =>
      rcases least with larger | ⟨same, _⟩
      · simp only [bestCold, otherCold] at larger
        exact absurd larger (by decide)
      · exact absurd same (by simp [bestCold, otherCold])
    | false =>
      left
      simp only [bestCold, otherCold, lt_irrefl, false_or, true_and] at least
      have past := accesses_lt otherKnown.mem
      rw [bestKnown.distance_hot bestCold, otherKnown.distance_hot otherCold,
        Nat.cast_lt]
      omega

theorem Follows.firstReplaceable (follows : policy.Follows history)
    (bounded : references history < 2 ^ 64) (isReplaceable : FrameId → Bool)
    {visited : List (Sigma fun _ : FrameId => List UInt64)}
    (walk : visited.Perm policy.histories.entries) :
    FirstReplaceable history (LargestBackwardDistance K history) isReplaceable
      (chooseVictim isReplaceable visited) := by
  have candidates := follows.mem_candidates isReplaceable walk
  rw [chooseVictim_eq]
  have chosen : ∀ frameId ∈ (argmin rank
      (visited.filterMap (candidate isReplaceable))).map victim,
      ∃ best ∈ argmin rank (visited.filterMap (candidate isReplaceable)),
        best.victim = frameId := fun frameId member => by
    simpa using member
  constructor
  · rw [isSome_map, isSome_iff_ne_none, ne_eq, argmin_eq_none, ← ne_eq]
    constructor
    · intro nonempty
      obtain ⟨choice, member⟩ := exists_mem_of_ne_nil _ nonempty
      obtain ⟨allowed, time, known⟩ := (candidates choice).mp member
      exact ⟨choice.victim, known.tracked, allowed⟩
    · rintro ⟨frameId, known, allowed⟩
      obtain ⟨choice, time, rfl, made⟩ := exists_candidate known
      exact ne_nil_of_mem ((candidates choice).mpr ⟨allowed, time, made⟩)
  · intro frameId member
    obtain ⟨best, least, rfl⟩ := chosen frameId member
    obtain ⟨allowed, time, known⟩ := (candidates best).mp (argmin_mem least)
    exact ⟨known.tracked, allowed⟩
  · intro frameId member other tracked otherAllowed apart
    obtain ⟨best, least, rfl⟩ := chosen frameId member
    obtain ⟨_, time, known⟩ := (candidates best).mp (argmin_mem least)
    obtain ⟨choice, later, rfl, made⟩ := exists_candidate tracked
    refine known.before made bounded apart (le_of_mem_argmin ?_ least)
    exact (candidates choice).mpr ⟨otherAllowed, later, made⟩

end LRUKReplacementPolicy

end LRUK

/-- Each policy gives up the first replaceable frame of its order, LRU-K as long as its
64-bit clock has not come round. -/
theorem victim_first_in_reference_order (history : List Event) (known : reported history = true)
    (isReplaceable : FrameId → Bool) :
    FirstReplaceable history (LeastRecentlyAccessed history) isReplaceable
        ((lruReplacementPolicy.after history).chooseVictim isReplaceable) ∧
      FirstReplaceable history (EarliestInserted history) isReplaceable
        ((fifoReplacementPolicy.after history).chooseVictim isReplaceable) ∧
      (references history < 2 ^ 64 →
        ∀ visited, visited.Perm (after history).histories.entries →
          FirstReplaceable history (LargestBackwardDistance LRUKReplacementPolicy.K history)
            isReplaceable (chooseVictim isReplaceable visited)) :=
  ⟨(lru_follows known).firstReplaceable isReplaceable,
    (fifo_follows history).firstReplaceable isReplaceable,
    fun bounded _ walk =>
      (after_follows known).firstReplaceable bounded isReplaceable walk⟩

def comingBack : List Event :=
  [.access ⟨1, 7⟩, .insert ⟨1, 7⟩, .remove ⟨1, 7⟩, .insert ⟨1, 8⟩, .insert ⟨1, 7⟩]

theorem victim_first_in_reference_order_coming_back :
    reported comingBack = true ∧ references comingBack < 2 ^ 64 ∧
      FirstReplaceable comingBack (LeastRecentlyAccessed comingBack) (fun _ => true)
        ((lruReplacementPolicy.after comingBack).chooseVictim fun _ => true) ∧
      FirstReplaceable comingBack (EarliestInserted comingBack) (fun _ => true)
        ((fifoReplacementPolicy.after comingBack).chooseVictim fun _ => true) ∧
      FirstReplaceable comingBack (LargestBackwardDistance LRUKReplacementPolicy.K comingBack)
        (fun _ => true)
        (chooseVictim (fun _ => true)
          (after comingBack).histories.entries) := by
  have all := victim_first_in_reference_order comingBack (by decide) fun _ => true
  exact ⟨by decide, by decide, all.1, all.2.1, all.2.2 (by decide) _ (.refl _)⟩

section Wraparound

def longRun (count : Nat) : List Event :=
  .access ⟨1, 3⟩ :: .insert ⟨1, 3⟩ ::
    (List.replicate count (.access ⟨1, 2⟩) ++ [.insert ⟨1, 2⟩, .access ⟨1, 1⟩, .insert ⟨1, 1⟩])

theorem hits_change_nothing {hit : FrameId} (count : Nat) (earlier : List Event)
    (known : tracked hit earlier = true) (heard : reported earlier = true) :
    references (List.replicate count (.access hit) ++ earlier) = count + references earlier ∧
      reported (List.replicate count (.access hit) ++ earlier) = true ∧
      ∀ frameId, tracked frameId (List.replicate count (.access hit) ++ earlier) =
          tracked frameId earlier ∧
        (frameId ≠ hit → accesses frameId (List.replicate count (.access hit) ++ earlier) =
          accesses frameId earlier) := by
  induction count with
  | zero => exact ⟨by simp, heard, fun _ => ⟨rfl, fun _ => rfl⟩⟩
  | succ count ih =>
    obtain ⟨counted, still, same⟩ := ih
    simp only [replicate_succ, cons_append, references, reported, tracked, counted,
      still, (same hit).1, known, Bool.and_self, true_and]
    refine ⟨by omega, fun frameId => ⟨(same frameId).1, fun apart => ?_⟩⟩
    rw [accesses, if_neg fun hitIt => apart hitIt.1.symm, (same frameId).2 apart]

theorem longRun_history (count : Nat) :
    reported (longRun count) = true ∧ references (longRun count) = count + 5 ∧
      accesses ⟨1, 1⟩ (longRun count) = [1, 0] ∧
      accesses ⟨1, 3⟩ (longRun count) = [count + 4, count + 3] := by
  obtain ⟨counted, heard, same⟩ := @hits_change_nothing ⟨1, 2⟩ count
    [.insert ⟨1, 2⟩, .access ⟨1, 1⟩, .insert ⟨1, 1⟩] (by decide) (by decide)
  have first := (same ⟨1, 1⟩).2 (by decide)
  refine ⟨?_, ?_, ?_, ?_⟩
  · simp [longRun, reported, tracked, heard]
  · simp [longRun, references, counted]
  · simp [longRun, accesses, first, tracked, references]
  · simp [longRun, accesses, tracked, references, counted]

/-- The second last reference to the third frame is stamped with zero, that of the first
frame with one. -/
theorem longRun_victim {count : Nat} (round : count + 4 = 2 ^ 64) {isReplaceable : FrameId → Bool}
    (allowed : isReplaceable ⟨1, 3⟩ = true) {victim : FrameId}
    (chosen : victim ∈ chooseVictim isReplaceable
      (after (longRun count)).histories.entries) :
    victim ≠ ⟨1, 1⟩ := by
  obtain ⟨heard, _, first, third⟩ := longRun_history count
  have candidates := (after_follows heard).mem_candidates isReplaceable
    (.refl _)
  rw [chooseVictim_eq, mem_def, map_eq_some_iff] at chosen
  obtain ⟨best, least, rfl⟩ := chosen
  have zero : stamp (count + 3) = 0 := by
    rw [stamp, round]
    rfl
  have late := (candidates ⟨⟨1, 3⟩, false, 0⟩).mpr
    ⟨allowed, count + 3, zero.symm, by simp [third]⟩
  have smallest := le_of_mem_argmin late least
  obtain ⟨_, time, known⟩ := (candidates best).mp (argmin_mem least)
  intro same
  cases cold : best.victimIsCold with
  | true =>
    have times := known.cold cold
    rw [same, first] at times
    exact absurd times (by simp)
  | false =>
    obtain ⟨latest, earlier, times⟩ := known.hot cold
    rw [same, first] at times
    obtain ⟨rfl, rfl, rfl⟩ : latest = 1 ∧ time = 0 ∧ earlier = [] := by simpa [eq_comm] using times
    rw [LRUKReplacementPolicy.Choice.rank, LRUKReplacementPolicy.Choice.rank,
      Prod.Lex.toLex_le_toLex, known.stamp, cold] at smallest
    exact absurd smallest (by decide)

theorem victim_later_after_wraparound :
    reported (longRun (2 ^ 64 - 4)) = true ∧
      ¬ FirstReplaceable (longRun (2 ^ 64 - 4))
        (LargestBackwardDistance LRUKReplacementPolicy.K (longRun (2 ^ 64 - 4)))
        (fun frameId => frameId = ⟨1, 1⟩ ∨ frameId = ⟨1, 3⟩)
        (chooseVictim (fun frameId => frameId = ⟨1, 1⟩ ∨ frameId = ⟨1, 3⟩)
          (after (longRun (2 ^ 64 - 4))).histories.entries) := by
  obtain ⟨count, counted, round⟩ : ∃ count, 2 ^ 64 - 4 = count ∧ count + 4 = 2 ^ 64 :=
    ⟨2 ^ 64 - 4, rfl, rfl⟩
  rw [counted]
  obtain ⟨heard, total, first, third⟩ := longRun_history count
  refine ⟨heard, fun ordered => ?_⟩
  have known : tracked ⟨1, 1⟩ (longRun count) = true :=
    tracked_of_mem (first ▸ mem_cons_self)
  obtain ⟨victim, chosen⟩ := isSome_iff_exists.mp
    (ordered.found.mpr ⟨⟨1, 1⟩, known, by decide⟩)
  have apart := longRun_victim round (by decide) chosen
  obtain rfl : victim = ⟨1, 3⟩ := by simpa [apart] using (ordered.allowed victim chosen).2
  have before := ordered.first _ chosen ⟨1, 1⟩ known (by decide) (by decide)
  simp only [LargestBackwardDistance, backwardDistance, LRUKReplacementPolicy.K, first, third,
    total] at before
  rcases before with less | ⟨same, _⟩
  · exact absurd (Nat.cast_lt.mp less) (by omega)
  · exact absurd (Nat.cast_inj.mp same) (by omega)

end Wraparound

end CsuDbms.ReplacementPolicyModel
