import CsuDbms.ReplacementPolicyModel

/-!
# The clock

The ring is looked at from the hand: a removal takes one frame out of this view, a
choice turns it. A sweep goes at most twice around it, and the second turn finds
clear the bit of every frame that the first turn passed and could replace.
-/

namespace CsuDbms.ReplacementPolicyModel

open DiskBufferPoolModel List

namespace ClockReplacementPolicy

def view (policy : ClockReplacementPolicy) : List FrameId := policy.ring.rotate policy.hand

def bit (policy : ClockReplacementPolicy) (frameId : FrameId) : Bool :=
  (policy.referenced.lookup frameId).getD false

inductive Action where
  | notify (event : Event)
  | choose (isReplaceable : FrameId → Bool)

def act (policy : ClockReplacementPolicy) : Action → ClockReplacementPolicy
  | .notify event => policy.notify event
  | .choose isReplaceable => (policy.chooseVictim isReplaceable).1

def after (history : List Action) : ClockReplacementPolicy :=
  history.foldr (fun action policy => policy.act action) create

def events (history : List Action) : List Event :=
  history.filterMap fun
    | .notify event => some event
    | .choose _ => none

def ClearWhenReached (policy : ClockReplacementPolicy) (isReplaceable : FrameId → Bool)
    (passed : List FrameId) (frameId : FrameId) : Prop :=
  isReplaceable frameId = true ∧ (policy.bit frameId = false ∨ frameId ∈ passed)

/-- The victim is the first frame on the way whose bit is clear. The hand goes on behind it, and
the frames that were passed and could be replaced have lost their bits. -/
def FirstClear (policy : ClockReplacementPolicy) (isReplaceable : FrameId → Bool)
    (victim : FrameId) (next : ClockReplacementPolicy) : Prop :=
  ∃ passed ahead, policy.view ++ policy.view = passed ++ victim :: ahead ∧
    policy.ClearWhenReached isReplaceable passed victim ∧
    (∀ before frameId between, passed = before ++ frameId :: between →
      ¬ policy.ClearWhenReached isReplaceable before frameId) ∧
    next.hand = (policy.hand + passed.length + 1) % policy.ring.length ∧
    ∀ frameId, next.bit frameId = true ↔ policy.bit frameId = true ∧
      ¬(isReplaceable frameId = true ∧ frameId ∈ passed)

/-- The bit of a frame after an event, from the bit before. -/
def bitAfter (frameId : FrameId) (tracked before : Bool) : Event → Bool
  | .insert inserted => inserted = frameId || before
  | .access accessed => accessed = frameId && tracked || before
  | .remove removed => removed ≠ frameId && before
  | .pin _ | .unpin _ => before

structure Wound (policy : ClockReplacementPolicy) (history : List Event) : Prop where
  once : policy.ring.Nodup
  protected tracked : ∀ frameId, frameId ∈ policy.ring ↔ tracked frameId history = true
  hand : policy.hand < policy.ring.length ∨ policy.ring = [] ∧ policy.hand = 0
  known : ∀ frameId, frameId ∈ policy.referenced ↔ frameId ∈ policy.ring

section Removal

variable {policy : ClockReplacementPolicy} {frameId : FrameId}

theorem onRemove_of_not_mem (absent : frameId ∉ policy.ring) :
    (policy.onRemove frameId).ring = policy.ring ∧
    (policy.onRemove frameId).hand = policy.hand := by
  rw [onRemove, if_neg absent]
  exact ⟨rfl, rfl⟩

section Split

variable {front back : List FrameId}

theorem onRemove_of_split (ring : policy.ring = front ++ frameId :: back)
    (absent : frameId ∉ front) :
    (policy.onRemove frameId).ring = front ++ back ∧
      (policy.onRemove frameId).hand =
        if front.length + back.length ≤
            (if front.length < policy.hand then policy.hand - 1 else policy.hand) then 0
        else if front.length < policy.hand then policy.hand - 1 else policy.hand := by
  have member : frameId ∈ policy.ring := by simp [ring]
  have index : policy.ring.idxOf frameId = front.length := by
    rw [ring, idxOf_append_of_notMem absent, idxOf_cons_self, Nat.add_zero]
  have left : policy.ring.eraseIdx front.length = front ++ back := by
    rw [ring, eraseIdx_append_of_length_le (Nat.le_refl _), Nat.sub_self,
      eraseIdx_cons_zero]
  have positive : (front.length < policy.hand ∧ 0 < policy.hand) ↔ front.length < policy.hand :=
    ⟨And.left, fun later => ⟨later, Nat.zero_lt_of_lt later⟩⟩
  have empty : (front ++ back = [] ∨ (front ++ back).length ≤
      (if front.length < policy.hand then policy.hand - 1 else policy.hand)) ↔
      front.length + back.length ≤
        (if front.length < policy.hand then policy.hand - 1 else policy.hand) := by
    rw [length_append]
    refine ⟨fun short => short.elim (fun none => ?_) id, .inr⟩
    rw [← length_append, none]
    exact Nat.zero_le _
  rw [onRemove, if_pos member]
  simp only [index, left, positive, empty]
  exact ⟨trivial, trivial⟩

theorem view_of_split {first second : List FrameId} (ring : policy.ring = first ++ second)
    (hand : policy.hand = first.length) : policy.view = second ++ first := by
  rw [view, ring, hand, rotate_append_length_eq]

theorem exists_split_at {list : List FrameId} {index : Nat} (bound : index ≤ list.length) :
    ∃ first second, list = first ++ second ∧ first.length = index :=
  ⟨list.take index, list.drop index, (take_append_drop index list).symm,
    length_take_of_le bound⟩

section

variable (ring : policy.ring = front ++ frameId :: back) (absent : frameId ∉ front)
include ring absent

theorem remove_before_hand (once : frameId ∉ back) (valid : policy.hand < policy.ring.length)
    (before : front.length < policy.hand) :
    (policy.onRemove frameId).hand < (policy.onRemove frameId).ring.length ∧
      (policy.onRemove frameId).view = policy.view.erase frameId := by
  obtain ⟨newRing, newHand⟩ := onRemove_of_split ring absent
  rw [ring, length_append, length_cons] at valid
  rw [if_pos before, if_neg (by omega)] at newHand
  have bound : policy.hand - front.length - 1 ≤ back.length := by omega
  obtain ⟨near, far, rfl, length⟩ := exists_split_at bound
  have oldView : policy.view = far ++ (front ++ frameId :: near) :=
    view_of_split (by simp [ring]) (by simp; omega)
  have newView : (policy.onRemove frameId).view = far ++ (front ++ near) :=
    view_of_split (by simp [newRing]) (by simp; omega)
  rw [mem_append, not_or] at once
  refine ⟨?_, ?_⟩
  · rw [newHand, newRing, length_append]
    omega
  · rw [newView, oldView, erase_append_right _ once.2, erase_append_right _ absent,
      erase_cons_head]

theorem remove_at_hand (at_hand : policy.hand = front.length) :
    ((policy.onRemove frameId).hand < (policy.onRemove frameId).ring.length ∨
      (policy.onRemove frameId).ring = [] ∧ (policy.onRemove frameId).hand = 0) ∧
      (policy.onRemove frameId).view = policy.view.erase frameId := by
  obtain ⟨newRing, newHand⟩ := onRemove_of_split ring absent
  have oldView : policy.view = frameId :: back ++ front := view_of_split ring at_hand
  have stays : ¬ front.length < policy.hand := by omega
  rw [if_neg stays, at_hand] at newHand
  rw [oldView, cons_append, erase_cons_head]
  cases back with
  | nil =>
    -- the hand was on the last slot and goes back to the first
    rw [append_nil] at newRing
    rw [if_pos (by simp)] at newHand
    refine ⟨?_, (view_of_split newRing newHand).trans (append_nil front)⟩
    rw [newRing, newHand]
    cases front <;> simp
  | cons next rest =>
    rw [if_neg (by simp)] at newHand
    refine ⟨.inl ?_, view_of_split newRing newHand⟩
    rw [newRing, newHand]
    simp

theorem remove_after_hand (after : policy.hand < front.length) :
    (policy.onRemove frameId).hand < (policy.onRemove frameId).ring.length ∧
      (policy.onRemove frameId).view = policy.view.erase frameId := by
  obtain ⟨newRing, newHand⟩ := onRemove_of_split ring absent
  have stays : ¬ front.length < policy.hand := by omega
  rw [if_neg stays, if_neg (by omega)] at newHand
  obtain ⟨near, far, rfl, length⟩ := exists_split_at (Nat.le_of_lt after)
  have oldView : policy.view = far ++ frameId :: back ++ near :=
    view_of_split (by simp [ring]) length.symm
  have newView : (policy.onRemove frameId).view = far ++ back ++ near :=
    view_of_split (by simp [newRing]) (newHand.trans length.symm)
  rw [mem_append, not_or] at absent
  refine ⟨?_, ?_⟩
  · rw [newHand, newRing, length_append]
    omega
  · rw [newView, oldView, append_assoc, append_assoc, erase_append_right _ absent.2,
      cons_append, erase_cons_head]

end

end Split

theorem onRemove_keeps (once : policy.ring.Nodup)
    (valid : policy.hand < policy.ring.length ∨ policy.ring = [] ∧ policy.hand = 0)
    (frameId : FrameId) :
    ((policy.onRemove frameId).hand < (policy.onRemove frameId).ring.length ∨
      (policy.onRemove frameId).ring = [] ∧ (policy.onRemove frameId).hand = 0) ∧
      (policy.onRemove frameId).view = policy.view.erase frameId := by
  by_cases member : frameId ∈ policy.ring
  · obtain ⟨front, back, ring⟩ := append_of_mem member
    have apart := once
    rw [ring, nodup_middle, nodup_cons, mem_append, not_or] at apart
    have absent := apart.1.1
    have inside : policy.hand < policy.ring.length :=
      valid.resolve_right fun empty => ne_nil_of_mem member empty.1
    rcases Nat.lt_trichotomy front.length policy.hand with before | at_hand | behind
    · exact (remove_before_hand ring absent apart.1.2 inside before).imp_left .inl
    · exact remove_at_hand ring absent at_hand.symm
    · exact (remove_after_hand ring absent behind).imp_left .inl
  · obtain ⟨ring, hand⟩ := onRemove_of_not_mem member
    rw [view, view, ring, hand]
    exact ⟨valid, (erase_of_not_mem (by rwa [mem_rotate])).symm⟩

theorem ring_onRemove (policy : ClockReplacementPolicy) (frameId : FrameId) :
    (policy.onRemove frameId).ring = policy.ring.erase frameId := by
  by_cases member : frameId ∈ policy.ring
  · obtain ⟨front, back, ring, absent⟩ := eq_append_cons_of_mem member
    rw [(onRemove_of_split ring absent).1, ring, erase_append_right _ absent,
      erase_cons_head]
  · rw [(onRemove_of_not_mem member).1, erase_of_not_mem member]

theorem referenced_onRemove (policy : ClockReplacementPolicy) (frameId : FrameId) :
    (policy.onRemove frameId).referenced = policy.referenced.erase frameId := by
  unfold onRemove
  split <;> rfl

end Removal

section Sweep

variable {isReplaceable : FrameId → Bool}

def Ahead (ring : List FrameId) : Nat → List FrameId → Prop
  | _, [] => True
  | hand, frameId :: rest =>
    ring[hand]? = some frameId ∧ Ahead ring ((hand + 1) % ring.length) rest

variable {hand : Nat}

theorem ahead_of_slots {ring : List FrameId} {list : List FrameId} (valid : hand < ring.length)
    (slots : ∀ index, index < list.length → ring[(hand + index) % ring.length]? = list[index]?) :
    Ahead ring hand list := by
  induction list generalizing hand with
  | nil => trivial
  | cons frameId rest ih =>
    refine ⟨?_, ih (Nat.mod_lt _ (Nat.zero_lt_of_lt valid)) fun index bound => ?_⟩
    · have slot := slots 0 (by simp)
      rwa [Nat.add_zero, Nat.mod_eq_of_lt valid] at slot
    · have slot := slots (index + 1) (by simpa using bound)
      rw [getElem?_cons_succ] at slot
      rw [← slot, Nat.mod_add_mod, Nat.add_right_comm, Nat.add_assoc]

variable {policy : ClockReplacementPolicy}

theorem ahead_turns (valid : policy.hand < policy.ring.length) :
    Ahead policy.ring policy.hand (policy.view ++ policy.view) := by
  have length : policy.view.length = policy.ring.length := length_rotate ..
  refine ahead_of_slots valid fun index bound => ?_
  rw [length_append, length] at bound
  rcases Nat.lt_or_ge index policy.ring.length with first | second
  · rw [getElem?_append_left (length.symm ▸ first), view, getElem?_rotate first,
      Nat.add_comm]
  · obtain ⟨extra, rfl⟩ := Nat.exists_eq_add_of_le second
    rw [getElem?_append_right (length.symm ▸ second), length, Nat.add_sub_cancel_left, view,
      getElem?_rotate (by omega), Nat.add_left_comm, Nat.add_mod_left, Nat.add_comm]

structure Swept (isReplaceable : FrameId → Bool) (start policy : ClockReplacementPolicy)
    (passed : List FrameId) : Prop where
  ring : policy.ring = start.ring
  hand : policy.hand = (start.hand + passed.length) % start.ring.length
  bits : ∀ frameId, policy.bit frameId = true ↔ start.bit frameId = true ∧
    ¬(isReplaceable frameId = true ∧ frameId ∈ passed)
  known : ∀ frameId, frameId ∈ policy.referenced ↔ frameId ∈ start.referenced

theorem bit_insert (policy : ClockReplacementPolicy) (frameId other : FrameId) (value : Bool) :
    ({ policy with referenced := policy.referenced.insert frameId value } :
      ClockReplacementPolicy).bit other = if other = frameId then value else policy.bit other := by
  by_cases same : other = frameId
  · subst same
    simp [bit]
  · simp [bit, AList.lookup_insert_ne same, same]

def Refused (isReplaceable : FrameId → Bool) (start : ClockReplacementPolicy)
    (passed : List FrameId) : Prop :=
  ∀ before frameId between, passed = before ++ frameId :: between →
    ¬ start.ClearWhenReached isReplaceable before frameId

variable {start : ClockReplacementPolicy} {passed : List FrameId} {frameId : FrameId}

theorem Refused.push (refused : Refused isReplaceable start passed)
    (last : ¬ start.ClearWhenReached isReplaceable passed frameId) :
    Refused isReplaceable start (passed ++ [frameId]) := by
  intro before other between split
  rcases eq_nil_or_concat between with rfl | ⟨within, final, rfl⟩
  · obtain ⟨rfl, same⟩ := append_inj' split rfl
    obtain rfl : frameId = other := by simpa using same
    exact last
  · rw [concat_eq_append, ← cons_append, ← append_assoc] at split
    exact refused before other within (append_inj' split rfl).1

def Stops (isReplaceable : FrameId → Bool) (start : ClockReplacementPolicy)
    (passed rest : List FrameId) : ClockReplacementPolicy × Option FrameId → Prop
  | (next, none) => Refused isReplaceable start (passed ++ rest) ∧
      Swept isReplaceable start next (passed ++ rest)
  | (next, some victim) => ∃ between after, rest = between ++ victim :: after ∧
      start.ClearWhenReached isReplaceable (passed ++ between) victim ∧
      Refused isReplaceable start (passed ++ between) ∧
      Swept isReplaceable start next (passed ++ between ++ [victim])

theorem Stops.cons {rest : List FrameId} {result : ClockReplacementPolicy × Option FrameId}
    (stops : Stops isReplaceable start (passed ++ [frameId]) rest result) :
    Stops isReplaceable start passed (frameId :: rest) result := by
  obtain ⟨next, _ | victim⟩ := result
  · simpa [Stops] using stops
  · obtain ⟨between, after, rfl, clear, refused, swept⟩ := stops
    refine ⟨frameId :: between, after, rfl, ?_, ?_, ?_⟩
    · simpa using clear
    · simpa using refused
    · simpa using swept

section

variable (swept : Swept isReplaceable start policy passed)
include swept

theorem Swept.turn : (policy.hand + 1) % policy.ring.length =
    (start.hand + (passed ++ [frameId]).length) % start.ring.length := by
  rw [swept.hand, swept.ring, Nat.mod_add_mod, length_append, length_singleton, Nat.add_assoc]

theorem Swept.skip (kept : isReplaceable frameId = false) :
    Swept isReplaceable start { policy with hand := (policy.hand + 1) % policy.ring.length }
      (passed ++ [frameId]) := by
  refine ⟨swept.ring, swept.turn, fun other => (swept.bits other).trans ?_, swept.known⟩
  refine and_congr_right fun _ => not_congr (and_congr_right fun allowed => ?_)
  have apart : other ≠ frameId := by
    rintro rfl
    exact absurd allowed (by simp [kept])
  rw [mem_append, mem_singleton, or_iff_left apart]

theorem Swept.clear (allowed : isReplaceable frameId = true)
    (member : frameId ∈ policy.referenced) :
    Swept isReplaceable start
      { policy with
          hand := (policy.hand + 1) % policy.ring.length
          referenced := policy.referenced.insert frameId false }
      (passed ++ [frameId]) := by
  refine ⟨swept.ring, swept.turn, fun other => ?_, fun other => ?_⟩
  · have cleared := bit_insert
      { policy with hand := (policy.hand + 1) % policy.ring.length } frameId other false
    have before := swept.bits other
    refine (Bool.eq_iff_iff.mp cleared).trans ?_
    by_cases same : other = frameId
    · simp [same, allowed]
    · rw [if_neg same, mem_append, mem_singleton, or_iff_left same]
      exact before
  · rw [AList.mem_insert, ← swept.known]
    exact or_iff_right_of_imp fun same => same ▸ member

theorem scan_spec {rest : List FrameId} (known : ∀ frameId ∈ rest, frameId ∈ start.referenced)
    (ahead : Ahead policy.ring policy.hand rest) (refused : Refused isReplaceable start passed) :
    Stops isReplaceable start passed rest (scan isReplaceable rest.length policy) := by
  induction rest generalizing policy passed with
  | nil => exact ⟨by simpa using refused, by simpa using swept⟩
  | cons frameId rest ih =>
    obtain ⟨here, ahead⟩ := ahead
    have later := fun other member => known other (mem_cons_of_mem _ member)
    rw [length_cons, scan]
    simp only [here]
    by_cases allowed : isReplaceable frameId = true
    · have cleared := swept.clear allowed ((swept.known frameId).mpr (known frameId (by simp)))
      have reached : start.ClearWhenReached isReplaceable passed frameId ↔
          (policy.referenced.lookup frameId).getD false ≠ true := by
        rw [← not_iff_not, not_not]
        refine Iff.trans ?_ (swept.bits frameId).symm
        simp [ClearWhenReached, allowed]
      rw [if_pos allowed]
      by_cases set : (policy.referenced.lookup frameId).getD false = true
      · rw [if_pos set]
        exact (ih cleared later ahead (refused.push fun clear => reached.mp clear set)).cons
      · rw [if_neg set]
        refine ⟨[], rest, rfl, ?_, ?_, ?_⟩
        · rw [append_nil]
          exact reached.mpr set
        · rwa [append_nil]
        · rwa [append_nil]
    · rw [if_neg allowed]
      exact (ih (swept.skip (by simpa using allowed)) later ahead
        (refused.push fun clear => allowed clear.1)).cons

end

theorem chooseVictim_spec (valid : policy.hand < policy.ring.length)
    (known : ∀ frameId, frameId ∈ policy.referenced ↔ frameId ∈ policy.ring)
    (isReplaceable : FrameId → Bool) :
    Stops isReplaceable policy [] (policy.view ++ policy.view)
      (policy.chooseVictim isReplaceable) := by
  have nonempty : policy.ring ≠ [] := ne_nil_of_length_pos (Nat.zero_lt_of_lt valid)
  have turns : policy.ring.length * 2 = (policy.view ++ policy.view).length := by
    rw [length_append, view, length_rotate, Nat.mul_two]
  have start : Swept isReplaceable policy policy [] :=
    ⟨rfl, (Nat.mod_eq_of_lt valid).symm, by simp, by simp⟩
  have refused : Refused isReplaceable policy [] := fun before frameId between split =>
    absurd split (by simp)
  rw [chooseVictim, if_neg nonempty, turns]
  exact scan_spec start (by simp [view, known]) (ahead_turns valid) refused

theorem Stops.swept {result : ClockReplacementPolicy × Option FrameId}
    {rest : List FrameId} (stops : Stops isReplaceable start passed rest result) :
    ∃ passed, Swept isReplaceable start result.1 passed := by
  obtain ⟨next, _ | victim⟩ := result
  · exact ⟨_, stops.2⟩
  · obtain ⟨_, _, _, _, _, swept⟩ := stops
    exact ⟨_, swept⟩

theorem Stops.found {result : ClockReplacementPolicy × Option FrameId}
    (stops : Stops isReplaceable policy [] (policy.view ++ policy.view) result) :
    result.2.isSome = true ↔ ∃ frameId ∈ policy.ring, isReplaceable frameId = true := by
  obtain ⟨next, _ | victim⟩ := result
  · refine iff_of_false (by simp) ?_
    rintro ⟨frameId, member, allowed⟩
    have inView : frameId ∈ policy.view := mem_rotate.mpr member
    obtain ⟨front, back, split⟩ := append_of_mem inView
    refine stops.1 (policy.view ++ front) frameId back ?_ ⟨allowed, .inr ?_⟩
    · rw [nil_append, append_assoc, ← split]
    · exact mem_append_left _ inView
  · refine iff_of_true rfl ?_
    obtain ⟨between, after, split, clear, _⟩ := stops
    have member : victim ∈ policy.view ++ policy.view := by simp [split]
    rw [mem_append, or_self] at member
    exact ⟨victim, mem_rotate.mp member, clear.1⟩

theorem scan_ring (isReplaceable : FrameId → Bool) (left : Nat)
    (policy : ClockReplacementPolicy) : (scan isReplaceable left policy).1.ring = policy.ring := by
  induction left generalizing policy with
  | zero => rfl
  | succ left tailRing =>
    rw [scan]
    cases policy.ring[policy.hand]? with
    | none => rfl
    | some candidate =>
      dsimp only
      split_ifs
      · rw [tailRing]
      · rfl
      · rw [tailRing]

theorem scan_add {left : Nat} {victim : FrameId}
    (found : (scan isReplaceable left policy).2 = some victim) (more : Nat) :
    scan isReplaceable (left + more) policy = scan isReplaceable left policy := by
  induction left generalizing policy with
  | zero => exact absurd found (by simp [scan])
  | succ left ih =>
    rw [scan] at found
    rw [Nat.add_right_comm, scan, scan]
    cases here : policy.ring[policy.hand]? with
    | none => rfl
    | some candidate =>
      simp only [here] at found ⊢
      split_ifs at found ⊢ <;> first | rfl | exact ih found

theorem scan_none (policy : ClockReplacementPolicy)
    (refused : ∀ frameId ∈ policy.ring, isReplaceable frameId = false) (limit : Nat) :
    (scan isReplaceable limit policy).2 = none := by
  induction limit generalizing policy with
  | zero => rfl
  | succ limit ih =>
    rw [scan]
    cases here : policy.ring[policy.hand]? with
    | none => rfl
    | some candidate =>
      have kept := refused candidate (mem_of_getElem? here)
      simp only [kept, Bool.false_eq_true, if_false]
      exact ih _ refused

theorem scan_two_turns
    (valid : policy.hand < policy.ring.length ∨ policy.ring = [] ∧ policy.hand = 0)
    (known : ∀ frameId, frameId ∈ policy.referenced ↔ frameId ∈ policy.ring) {limit : Nat}
    (turns : policy.ring.length * 2 ≤ limit) :
    (scan isReplaceable limit policy).2 = (policy.chooseVictim isReplaceable).2 := by
  rcases valid with inside | ⟨empty, _⟩
  · have nonempty : policy.ring ≠ [] := ne_nil_of_length_pos (Nat.zero_lt_of_lt inside)
    obtain ⟨more, rfl⟩ := Nat.exists_eq_add_of_le turns
    have found := (chooseVictim_spec inside known isReplaceable).found
    rw [chooseVictim, if_neg nonempty] at found ⊢
    cases result : (scan isReplaceable (policy.ring.length * 2) policy).2 with
    | some victim => rw [scan_add result, result]
    | none =>
      rw [result] at found
      refine scan_none policy (fun frameId member => ?_) _
      by_contra allowed
      exact absurd (found.mpr ⟨frameId, member, by simpa using allowed⟩) (by simp)
  · rw [chooseVictim, if_pos empty]
    exact scan_none policy (by simp [empty]) limit

end Sweep

section Runs

variable {policy : ClockReplacementPolicy} {history : List Event}

section

variable (wound : policy.Wound history)
include wound

theorem Wound.onRemove (frameId : FrameId) :
    (policy.onRemove frameId).Wound (.remove frameId :: history) := by
  refine ⟨?_, fun other => ?_, (onRemove_keeps wound.once wound.hand frameId).1, fun other => ?_⟩
  · rw [ring_onRemove]
    exact wound.once.erase frameId
  · rw [ring_onRemove, wound.once.mem_erase_iff, wound.tracked]
    simp [tracked, @eq_comm _ frameId]
  · rw [ring_onRemove, referenced_onRemove, AList.mem_erase, wound.known,
      wound.once.mem_erase_iff]

theorem Wound.onInsert (frameId : FrameId) :
    (policy.onInsert frameId).Wound (.insert frameId :: history) := by
  have removed := wound.onRemove frameId
  have absent : frameId ∉ (policy.onRemove frameId).ring := by
    rw [removed.tracked]
    simp [tracked]
  refine ⟨?_, fun other => ?_, .inl ?_, fun other => ?_⟩
  · exact List.Nodup.append removed.once (nodup_singleton _) (by simpa using absent)
  · simp only [ClockReplacementPolicy.onInsert, mem_append, mem_singleton,
      removed.tracked]
    by_cases same : other = frameId <;>
      simp [tracked, same, @eq_comm _ frameId]
  · simp only [ClockReplacementPolicy.onInsert, length_append, length_singleton]
    rcases removed.hand with inside | ⟨_, zero⟩ <;> omega
  · simp [ClockReplacementPolicy.onInsert, AList.mem_insert, removed.known, or_comm]

theorem Wound.congr {changed : ClockReplacementPolicy} {later : List Event}
    (ring : changed.ring = policy.ring)
    (hand : changed.hand < policy.ring.length ∨ changed.hand = policy.hand)
    (known : ∀ frameId, frameId ∈ changed.referenced ↔ frameId ∈ policy.referenced)
    (same : ∀ frameId, tracked frameId later =
      tracked frameId history) : changed.Wound later := by
  refine ⟨ring ▸ wound.once, fun frameId => ?_, ?_, fun frameId => ?_⟩
  · rw [ring, same, wound.tracked]
  · rw [ring]
    rcases hand with inside | unmoved
    · exact .inl inside
    · exact unmoved ▸ wound.hand
  · rw [known, ring, wound.known]

theorem Wound.onAccess (frameId : FrameId) :
    (policy.onAccess frameId).Wound (.access frameId :: history) := by
  rw [ClockReplacementPolicy.onAccess]
  cases found : policy.referenced.lookup frameId with
  | none => exact wound.congr rfl (.inr rfl) (fun _ => Iff.rfl) fun _ => rfl
  | some _ =>
    refine wound.congr rfl (.inr rfl) (fun other => ?_) fun _ => rfl
    have member : frameId ∈ policy.referenced := AList.lookup_isSome.mp (by rw [found]; rfl)
    rw [AList.mem_insert]
    exact or_iff_right_of_imp fun same => same ▸ member

theorem Wound.notify (event : Event) :
    (policy.notify event).Wound (event :: history) := by
  cases event with
  | insert frameId => exact wound.onInsert frameId
  | access frameId => exact wound.onAccess frameId
  | pin frameId | unpin frameId =>
    exact wound.congr rfl (.inr rfl) (fun _ => Iff.rfl) fun _ => rfl
  | remove frameId => exact wound.onRemove frameId

theorem Wound.choose (isReplaceable : FrameId → Bool) :
    (policy.chooseVictim isReplaceable).1.Wound history := by
  rcases wound.hand with inside | ⟨empty, _⟩
  · obtain ⟨passed, swept⟩ := (chooseVictim_spec inside wound.known isReplaceable).swept
    refine wound.congr swept.ring (.inl ?_) swept.known fun _ => rfl
    rw [swept.hand]
    exact Nat.mod_lt _ (Nat.zero_lt_of_lt inside)
  · rw [chooseVictim, if_pos empty]
    exact wound

theorem Wound.bit_notify (event : Event) (frameId : FrameId) :
    (policy.notify event).bit frameId =
      bitAfter frameId (tracked frameId history) (policy.bit frameId) event := by
  cases event with
  | insert inserted =>
    rw [ClockReplacementPolicy.notify, ClockReplacementPolicy.onInsert, bitAfter]
    by_cases same : inserted = frameId
    · simp [bit, same]
    · have apart : frameId ≠ inserted := Ne.symm same
      simp [bit, referenced_onRemove, AList.lookup_insert_ne apart, AList.lookup_erase_ne apart, same]
  | access accessed =>
    rw [ClockReplacementPolicy.notify, ClockReplacementPolicy.onAccess, bitAfter]
    by_cases same : accessed = frameId
    · subst same
      have known := (wound.known accessed).trans (wound.tracked accessed)
      cases found : policy.referenced.lookup accessed with
      | none =>
        have absent := known.not.mp (AList.lookup_eq_none.mp found)
        simp [absent]
      | some value =>
        have present := known.mp (AList.lookup_isSome.mp (by rw [found]; rfl))
        simp [bit, present]
    · have apart : frameId ≠ accessed := Ne.symm same
      cases policy.referenced.lookup accessed <;> simp [bit, AList.lookup_insert_ne apart, same]
  | pin | unpin => rfl
  | remove removed =>
    rw [ClockReplacementPolicy.notify, bitAfter, bit, referenced_onRemove]
    by_cases same : removed = frameId
    · simp [same]
    · have apart : frameId ≠ removed := Ne.symm same
      simp [bit, AList.lookup_erase_ne apart, same]

end

theorem after_wound (history : List Action) : (after history).Wound (events history) := by
  induction history with
  | nil => exact ⟨nodup_nil, by simp [after, create, events, tracked], .inr ⟨rfl, rfl⟩,
      by simp [after, create]⟩
  | cons action earlier ih =>
    cases action with
    | notify event => exact ih.notify event
    | choose isReplaceable => exact ih.choose isReplaceable

end Runs

/-- The clock after any history of notifications and choices. Two turns settle what the
sweep finds: with a higher scan limit it would return the same. -/
theorem clock_ring_and_victim (history : List Action) :
    (after history).ring.Nodup ∧
      (∀ frameId, frameId ∈ (after history).ring ↔ tracked frameId (events history) = true) ∧
      ((after history).ring ≠ [] → (after history).hand < (after history).ring.length) ∧
      (∀ frameId, ((after history).onRemove frameId).view =
        (after history).view.erase frameId) ∧
      (∀ event frameId, ((after history).notify event).bit frameId =
        bitAfter frameId (tracked frameId (events history)) ((after history).bit frameId) event) ∧
      ∀ isReplaceable,
        (((after history).chooseVictim isReplaceable).2.isSome = true ↔
          ∃ frameId, tracked frameId (events history) = true ∧ isReplaceable frameId = true) ∧
        (∀ victim ∈ ((after history).chooseVictim isReplaceable).2,
          (after history).FirstClear isReplaceable victim
            ((after history).chooseVictim isReplaceable).1) ∧
        ∀ limit, (after history).ring.length * 2 ≤ limit →
          (scan isReplaceable limit (after history)).2 =
            ((after history).chooseVictim isReplaceable).2 := by
  have wound := after_wound history
  refine ⟨wound.once, wound.tracked, fun nonempty => ?_, fun frameId => ?_, wound.bit_notify,
    fun isReplaceable => ?_⟩
  · exact wound.hand.resolve_right fun empty => nonempty empty.1
  · exact (onRemove_keeps wound.once wound.hand frameId).2
  · rw [← and_assoc]
    refine ⟨?_, fun limit turns => scan_two_turns wound.hand wound.known turns⟩
    rcases wound.hand with inside | ⟨empty, _⟩
    · have stops := chooseVictim_spec inside wound.known isReplaceable
      refine ⟨?_, fun victim chosen => ?_⟩
      · rw [stops.found]
        exact exists_congr fun frameId => and_congr_left fun _ => wound.tracked frameId
      · generalize (after history).chooseVictim isReplaceable = result at stops chosen ⊢
        obtain ⟨next, found⟩ := result
        obtain rfl : found = some victim := chosen
        obtain ⟨passed, ahead, split, clear, refused, swept⟩ := stops
        refine ⟨passed, ahead, split, clear, refused, ?_, fun frameId => ?_⟩
        · rw [swept.hand, nil_append, length_append, length_singleton, Nat.add_assoc]
        · rw [swept.bits, nil_append, mem_append, mem_singleton]
          refine and_congr_right fun set => not_congr (and_congr_right fun _ => ?_)
          -- the bit of the victim was clear, or it was passed before
          refine or_iff_left_of_imp fun same => ?_
          subst same
          exact clear.2.resolve_left (by simp [set])
    · have none : (after history).chooseVictim isReplaceable = (after history, none) := by
        rw [chooseVictim, if_pos empty]
      rw [none]
      refine ⟨iff_of_false (by simp) ?_, by simp⟩
      rintro ⟨frameId, known, _⟩
      have member := (wound.tracked frameId).mpr known
      rw [empty] at member
      exact absurd member (by simp)

end ClockReplacementPolicy

end CsuDbms.ReplacementPolicyModel
