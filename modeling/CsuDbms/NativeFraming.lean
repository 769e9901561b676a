import CsuDbms.LittleEndian

/-!
# Requests of the native protocol

`NativeCommunicator::read_packet`. A call reads until it meets a terminator; what the same read
returned behind the terminator is in a buffer of the call and is gone with it.
-/

namespace CsuDbms.NativeProtocol

open LittleEndian List

def maxNativePacketSize : Nat := 1024 * 1024

inductive RC where
  | success
  | ioerrRead
  | ioerrClose
  | ioerrTooLong
  deriving DecidableEq

/-- What one `::read` does. No bytes mean that the peer has closed the connection. -/
inductive SocketRead where
  | bytes (chunk : List Byte)
  | again
  | failed
  deriving DecidableEq

/-- The loop of `read_packet`; no result while nothing more has arrived. -/
def readPacket (packet : List Byte) : List SocketRead → Option (RC × List Byte × List SocketRead)
  | [] => none
  | .again :: reads => readPacket packet reads
  | .failed :: reads => some (.ioerrRead, packet, reads)
  | .bytes chunk :: reads =>
    if chunk = [] then some (.ioerrClose, packet, reads)
    else
      let packet := packet ++ chunk.take (chunk.idxOf 0)
      if maxNativePacketSize < packet.length then some (.ioerrTooLong, packet, reads)
      else if 0 ∈ chunk then some (.success, packet, reads)
      else readPacket packet reads

/-- So many calls in a row, if all of them succeed. -/
def readPackets : Nat → List SocketRead → Option (List (List Byte))
  | 0, _ => some []
  | count + 1, reads =>
    match readPacket [] reads with
    | some (.success, packet, rest) => (readPackets count rest).map (packet :: ·)
    | _ => none

namespace SocketRead

def data : SocketRead → List Byte
  | bytes chunk => chunk
  | _ => []

def kept (read : SocketRead) : List Byte := read.data.take (read.data.idxOf 0 + 1)

end SocketRead

open SocketRead

structure Cut (requests : List (List Byte)) (reads : List SocketRead) : Prop where
  request : ∀ request ∈ requests, 0 ∉ request ∧ request.length ≤ maxNativePacketSize
  given : ∀ read ∈ reads, read ≠ .failed ∧ read ≠ .bytes []
  stream : reads.flatMap data = requests.flatMap (· ++ [0])

variable {requests : List (List Byte)} {reads rest : List SocketRead}
  {packet whole body more front : List Byte}

section Chunks

variable (plain : 0 ∉ front)
include plain

theorem kept_end (back : List Byte) : kept (bytes (front ++ 0 :: back)) = front ++ [0] := by
  simp [kept, data, idxOf_append_of_notMem plain, take_append]

theorem kept_through : kept (bytes front) = front := by
  simp [kept, data, idxOf_of_notMem plain]

theorem read_end (back : List Byte) :
    readPacket packet (.bytes (front ++ 0 :: back) :: reads) =
      if maxNativePacketSize < (packet ++ front).length then
        some (.ioerrTooLong, packet ++ front, reads)
      else some (.success, packet ++ front, reads) := by
  simp [readPacket, idxOf_append_of_notMem plain]

theorem read_through (some : front ≠ []) :
    readPacket packet (.bytes front :: reads) =
      if maxNativePacketSize < (packet ++ front).length then
        Option.some (.ioerrTooLong, packet ++ front, reads)
      else readPacket (packet ++ front) reads := by
  simp [readPacket, some, plain]

end Chunks

theorem kept_of_read (read : readPacket packet reads = some (.success, whole, rest)) :
    ∃ body, whole = packet ++ body ∧ reads.flatMap kept = body ++ 0 :: rest.flatMap kept := by
  induction reads generalizing packet with
  | nil => cases read
  | cons first reads ih =>
    cases first with
    | failed => cases read
    | again => exact ih read
    | bytes chunk =>
      by_cases ends : 0 ∈ chunk
      · obtain ⟨front, back, rfl, plain⟩ := eq_append_cons_of_mem ends
        rw [read_end plain] at read
        split at read
        · cases read
        · cases read
          exact ⟨front, rfl, by simp [kept_end plain]⟩
      · by_cases some : chunk = []
        · simp [readPacket, some] at read
        · rw [read_through ends some] at read
          split at read
          · cases read
          · obtain ⟨body, rfl, stream⟩ := ih read
            exact ⟨chunk ++ body, by simp, by simp [kept_through ends, stream]⟩

theorem kept_of_reads {count : Nat} (read : readPackets count reads = some requests) :
    requests.flatMap (· ++ [0]) <+: reads.flatMap kept := by
  induction count generalizing reads requests with
  | zero =>
    cases read
    exact nil_prefix
  | succ count ih =>
    rw [readPackets] at read
    split at read
    · rename_i packet rest first
      obtain ⟨others, later, rfl⟩ := Option.map_eq_some_iff.mp read
      obtain ⟨body, rfl, stream⟩ := kept_of_read first
      rw [stream, flatMap_cons, append_assoc]
      exact (prefix_append_right_inj _).mpr ((prefix_cons_inj 0).mpr (ih later))
    · cases read

/-- The call that has read `packet` so far, and those after it. -/
theorem reads_of_kept {request : List Byte} (plain : 0 ∉ packet)
    (given : ∀ read ∈ reads, read ≠ .failed ∧ read ≠ .bytes [])
    (valid : ∀ one ∈ request :: requests, 0 ∉ one ∧ one.length ≤ maxNativePacketSize)
    (stream : packet ++ reads.flatMap kept = request ++ 0 :: requests.flatMap (· ++ [0])) :
    ∃ rest, readPacket packet reads = some (.success, request, rest) ∧
      readPackets requests.length rest = some requests := by
  induction reads generalizing packet request requests with
  | nil =>
    rw [flatMap_nil, append_nil] at stream
    simp [stream] at plain
  | cons first reads ih =>
    obtain ⟨head, tail⟩ := forall_mem_cons.mp given
    obtain ⟨⟨plainRequest, short⟩, others⟩ := forall_mem_cons.mp valid
    cases first with
    | failed => exact absurd rfl head.1
    | again => exact ih plain tail valid stream
    | bytes chunk =>
      by_cases ends : 0 ∈ chunk
      · obtain ⟨front, back, rfl, plainFront⟩ := eq_append_cons_of_mem ends
        have plainBoth : 0 ∉ packet ++ front := by simp [plain, plainFront]
        rw [flatMap_cons, kept_end plainFront, append_assoc, ← append_assoc] at stream
        have lengths := congrArg (idxOf 0) stream
        rw [idxOf_append_of_notMem plainBoth, idxOf_append_of_notMem plainRequest,
          singleton_append, idxOf_cons_self, idxOf_cons_self] at lengths
        obtain ⟨rfl, left⟩ := append_inj stream lengths
        refine ⟨reads, by rw [read_end plainFront, if_neg (by omega)], ?_⟩
        cases requests with
        | nil => rfl
        | cons next requests =>
          have stream : [] ++ reads.flatMap kept = next ++ 0 :: requests.flatMap (· ++ [0]) := by
            simpa using left
          obtain ⟨rest, read, later⟩ := ih not_mem_nil tail others stream
          simp [readPackets, read, later]
      · have plainBoth : 0 ∉ packet ++ chunk := by simp [plain, ends]
        rw [flatMap_cons, kept_through ends, ← append_assoc] at stream
        have lengths := congrArg (idxOf 0) stream
        rw [idxOf_append_of_notMem plainBoth, idxOf_append_of_notMem plainRequest,
          idxOf_cons_self] at lengths
        rw [read_through ends (fun none => head.2 (none ▸ rfl)), if_neg (by omega)]
        exact ih plainBoth tail valid stream

theorem kept_sublist (reads : List SocketRead) : reads.flatMap kept <+ reads.flatMap data := by
  induction reads with
  | nil => exact .slnil
  | cons read reads ih => exact (take_sublist _ _).append ih

theorem all_kept (long : (reads.flatMap data).length ≤ (reads.flatMap kept).length) :
    ∀ read ∈ reads, read.kept = read.data := by
  induction reads with
  | nil => exact forall_mem_nil _
  | cons read reads ih =>
    have part : read.kept <+ read.data := take_sublist _ _
    have head := part.length_le
    have tail := (kept_sublist reads).length_le
    rw [flatMap_cons, flatMap_cons, length_append, length_append] at long
    exact forall_mem_cons.mpr ⟨part.eq_of_length_le (by omega), ih (by omega)⟩

/-- The calls return the requests exactly if no read goes beyond a terminator. -/
theorem framing_iff (cut : Cut requests reads) :
    readPackets requests.length reads = some requests ↔
      ∀ read ∈ reads, read.kept = read.data := by
  obtain ⟨valid, given, stream⟩ := cut
  constructor
  · intro read
    have long := (kept_of_reads read).length_le
    exact all_kept (stream ▸ long)
  · intro whole
    rw [← flatMap_congr whole] at stream
    cases requests with
    | nil => rfl
    | cons request requests =>
      have stream : [] ++ reads.flatMap kept = request ++ 0 :: requests.flatMap (· ++ [0]) := by
        simpa using stream
      obtain ⟨rest, read, later⟩ := reads_of_kept not_mem_nil given valid stream
      simp [readPackets, read, later]

theorem request_in_two_reads : readPackets 1 [.bytes [65], .again, .bytes [66, 0]] = some [[65, 66]] :=
  have cut : Cut [[65, 66]] [.bytes [65], .again, .bytes [66, 0]] := ⟨by decide, by decide, rfl⟩
  (framing_iff cut).mpr (by decide)

theorem second_request_lost : Cut [[65], [66]] [.bytes [65, 0, 66, 0]] ∧
    readPackets 2 [.bytes [65, 0, 66, 0]] = none :=
  ⟨⟨by decide, by decide, rfl⟩, by decide⟩

end CsuDbms.NativeProtocol
