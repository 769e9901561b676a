import CsuDbms.DiskBufferPoolModel

/-!
# The replacement policies

Pure transcription of `replacement_policy.cpp`. A `std::list` is a list of nodes, and
an iterator is the handle of its node, which moving the node leaves valid. A hash map
is an association list; where the source walks one, the walk is an argument. The
timestamps of LRU-K are 64 bits wide, as in the source.
-/

namespace CsuDbms.ReplacementPolicyModel

open DiskBufferPoolModel

inductive Event where
  | insert (frameId : FrameId)
  | access (frameId : FrameId)
  | pin (frameId : FrameId)
  | unpin (frameId : FrameId)
  | remove (frameId : FrameId)
  deriving DecidableEq

structure ListNode where
  handle : Nat
  frameId : FrameId
  deriving DecidableEq

/-- LRU and FIFO. `handles` counts the nodes that were ever allocated. -/
structure OrderedReplacementPolicy where
  touchOnAccess : Bool
  order : List ListNode
  positions : AList fun _ : FrameId => Nat
  handles : Nat

namespace OrderedReplacementPolicy

def create (touchOnAccess : Bool) : OrderedReplacementPolicy := ⟨touchOnAccess, [], ∅, 0⟩

def onRemove (policy : OrderedReplacementPolicy) (frameId : FrameId) : OrderedReplacementPolicy :=
  match policy.positions.lookup frameId with
  | none => policy
  | some node =>
    { policy with
      order := policy.order.filter (·.handle ≠ node)
      positions := policy.positions.erase frameId }

def onInsert (policy : OrderedReplacementPolicy) (frameId : FrameId) : OrderedReplacementPolicy :=
  let policy := policy.onRemove frameId
  { policy with
    order := policy.order ++ [⟨policy.handles, frameId⟩]
    positions := policy.positions.insert frameId policy.handles
    handles := policy.handles + 1 }

/-- `splice` moves the node to the end; its handle stays the same. -/
def onAccess (policy : OrderedReplacementPolicy) (frameId : FrameId) : OrderedReplacementPolicy :=
  if policy.touchOnAccess then
    match policy.positions.lookup frameId with
    | none => policy
    | some node =>
      { policy with
        order := policy.order.filter (·.handle ≠ node) ++ policy.order.filter (·.handle = node)
        positions := policy.positions.insert frameId node }
  else policy

def notify (policy : OrderedReplacementPolicy) : Event → OrderedReplacementPolicy
  | .insert frameId => policy.onInsert frameId
  | .access frameId => policy.onAccess frameId
  | .pin _ => policy
  | .unpin _ => policy
  | .remove frameId => policy.onRemove frameId

def chooseVictim (policy : OrderedReplacementPolicy) (isReplaceable : FrameId → Bool) :
    Option FrameId :=
  (policy.order.map ListNode.frameId).find? isReplaceable

end OrderedReplacementPolicy

def lruReplacementPolicy : OrderedReplacementPolicy := .create true

def fifoReplacementPolicy : OrderedReplacementPolicy := .create false

structure LRUKReplacementPolicy where
  currentTimestamp : UInt64
  histories : AList fun _ : FrameId => List UInt64

namespace LRUKReplacementPolicy

def K : Nat := 2

def create : LRUKReplacementPolicy := ⟨0, ∅⟩

def recordAccess (policy : LRUKReplacementPolicy) (frameId : FrameId) : LRUKReplacementPolicy :=
  let history := (policy.histories.lookup frameId).getD []
  let history := if history.length = K then history.tail else history
  let timestamp := policy.currentTimestamp + 1
  { currentTimestamp := timestamp
    histories := policy.histories.insert frameId (history ++ [timestamp]) }

def onRemove (policy : LRUKReplacementPolicy) (frameId : FrameId) : LRUKReplacementPolicy :=
  { policy with histories := policy.histories.erase frameId }

def onInsert (policy : LRUKReplacementPolicy) (frameId : FrameId) : LRUKReplacementPolicy :=
  (policy.onRemove frameId).recordAccess frameId

def notify (policy : LRUKReplacementPolicy) : Event → LRUKReplacementPolicy
  | .insert frameId => policy.onInsert frameId
  | .access frameId => policy.recordAccess frameId
  | .pin _ => policy
  | .unpin _ => policy
  | .remove frameId => policy.onRemove frameId

structure Choice where
  victim : FrameId
  victimIsCold : Bool
  oldestRelevantAccess : UInt64
  deriving DecidableEq

def Choice.replacedBy (best new : Choice) : Bool :=
  (new.victimIsCold && !best.victimIsCold) ||
    (new.victimIsCold == best.victimIsCold &&
      decide (new.oldestRelevantAccess < best.oldestRelevantAccess))

/-- What the loop makes of one entry of the map; `none` where it goes on at once. -/
def candidate (isReplaceable : FrameId → Bool) (entry : Sigma fun _ : FrameId => List UInt64) :
    Option Choice :=
  match entry.2 with
  | [] => none
  | relevantAccess :: _ =>
    if isReplaceable entry.1 then
      some ⟨entry.1, decide (entry.2.length < K), relevantAccess⟩
    else none

def consider (isReplaceable : FrameId → Bool) (found : Option Choice)
    (entry : Sigma fun _ : FrameId => List UInt64) : Option Choice :=
  match candidate isReplaceable entry, found with
  | none, found => found
  | some new, none => some new
  | some new, some best => if best.replacedBy new then some new else some best

/-- `visited` lists the entries of `histories` as the hash map walks them. -/
def chooseVictim (isReplaceable : FrameId → Bool)
    (visited : List (Sigma fun _ : FrameId => List UInt64)) : Option FrameId :=
  (visited.foldl (consider isReplaceable) none).map Choice.victim

end LRUKReplacementPolicy

structure ClockReplacementPolicy where
  ring : List FrameId
  referenced : AList fun _ : FrameId => Bool
  hand : Nat

namespace ClockReplacementPolicy

def create : ClockReplacementPolicy := ⟨[], ∅, 0⟩

def onRemove (policy : ClockReplacementPolicy) (frameId : FrameId) : ClockReplacementPolicy :=
  if frameId ∈ policy.ring then
    let index := policy.ring.idxOf frameId
    let hand := if index < policy.hand ∧ 0 < policy.hand then policy.hand - 1 else policy.hand
    let ring := policy.ring.eraseIdx index
    { ring := ring
      referenced := policy.referenced.erase frameId
      hand := if ring = [] ∨ ring.length ≤ hand then 0 else hand }
  else { policy with referenced := policy.referenced.erase frameId }

def onInsert (policy : ClockReplacementPolicy) (frameId : FrameId) : ClockReplacementPolicy :=
  let policy := policy.onRemove frameId
  { policy with
    ring := policy.ring ++ [frameId]
    referenced := policy.referenced.insert frameId true }

def onAccess (policy : ClockReplacementPolicy) (frameId : FrameId) : ClockReplacementPolicy :=
  match policy.referenced.lookup frameId with
  | none => policy
  | some _ => { policy with referenced := policy.referenced.insert frameId true }

def notify (policy : ClockReplacementPolicy) : Event → ClockReplacementPolicy
  | .insert frameId => policy.onInsert frameId
  | .access frameId => policy.onAccess frameId
  | .pin _ => policy
  | .unpin _ => policy
  | .remove frameId => policy.onRemove frameId

/-- The loop of `choose_victim`; the number counts the scans that are left. -/
def scan (isReplaceable : FrameId → Bool) :
    Nat → ClockReplacementPolicy → ClockReplacementPolicy × Option FrameId
  | 0, policy => (policy, none)
  | left + 1, policy =>
    match policy.ring[policy.hand]? with
    | none => (policy, none)  -- reading past the vector; no run gets here
    | some candidate =>
      let policy := { policy with hand := (policy.hand + 1) % policy.ring.length }
      if isReplaceable candidate then
        -- `referenced_[candidate]` makes a clear bit where there is none
        let bit := (policy.referenced.lookup candidate).getD false
        let policy := { policy with referenced := policy.referenced.insert candidate false }
        if bit then scan isReplaceable left policy else (policy, some candidate)
      else scan isReplaceable left policy

def chooseVictim (policy : ClockReplacementPolicy) (isReplaceable : FrameId → Bool) :
    ClockReplacementPolicy × Option FrameId :=
  if policy.ring = [] then (policy, none)
  else scan isReplaceable (policy.ring.length * 2) policy

end ClockReplacementPolicy

/-- A frame is tracked from its insertion to its removal. The latest event comes first. -/
def tracked (frameId : FrameId) : List Event → Bool
  | [] => false
  | .insert inserted :: earlier => inserted = frameId || tracked frameId earlier
  | .remove removed :: earlier => removed ≠ frameId && tracked frameId earlier
  | _ :: earlier => tracked frameId earlier

end CsuDbms.ReplacementPolicyModel
