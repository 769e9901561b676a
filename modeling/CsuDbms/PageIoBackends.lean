import CsuDbms.LittleEndian

/-!
# The two backends of page I/O

`LegacySeekPageIOBackend` seeks and then reads or writes at the offset of the descriptor;
`PositionalPageIOBackend` passes an offset with every call. An operation comes with what the
system answers to its calls; if the answers end, the operation has not returned.
-/

namespace CsuDbms.PageIoModel

open LittleEndian List

def pageSize : Nat := 8192

structure File where
  content : List Byte
  position : Nat

/-- A call transfers at most so many bytes, is to be made again (`EAGAIN`, `EINTR`), or fails. -/
inductive Answer where
  | moves (count : Nat)
  | again
  | fails
  deriving DecidableEq

inductive RC where
  | success
  | ioerrSeek
  | ioerrRead
  | ioerrWrite
  deriving DecidableEq

inductive Operation where
  | readPage
  | writePage (page : List Byte)

/-- A transfer on its way: the offset is that of the descriptor or a variable of the loop, and
`buf` has been read or is still to be written. -/
structure Transfer where
  content : List Byte
  offset : Nat
  buf : List Byte

namespace Operation

def failure : Operation → RC
  | readPage => .ioerrRead
  | writePage _ => .ioerrWrite

def start (operation : Operation) (content : List Byte) (offset : Nat) : Transfer :=
  match operation with
  | readPage => ⟨content, offset, []⟩
  | writePage page => ⟨content, offset, page⟩

def left (operation : Operation) (transfer : Transfer) : Nat :=
  match operation with
  | readPage => pageSize - transfer.buf.length
  | writePage _ => transfer.buf.length

def moved (operation : Operation) (transfer : Transfer) (count : Nat) : List Byte :=
  match operation with
  | readPage => (transfer.content.drop transfer.offset).take (min count (operation.left transfer))
  | writePage _ => transfer.buf.take count

/-- What is written behind the end of the file leaves a gap of zeros. -/
def move (operation : Operation) (transfer : Transfer) (count : Nat) : Transfer :=
  let bytes := operation.moved transfer count
  let place := transfer.offset + bytes.length
  match operation with
  | readPage => ⟨transfer.content, place, transfer.buf ++ bytes⟩
  | writePage _ =>
    if bytes = [] then transfer
    else
      ⟨transfer.content.take transfer.offset ++
        replicate (transfer.offset - transfer.content.length) 0 ++ bytes ++
        transfer.content.drop place, place, transfer.buf.drop count⟩

/-- The loops of `readn`, `preadn` and `pwriten`, which a call that moves nothing ends, and of
`writen`, which such a call does not end. -/
def loop (operation : Operation) (ends : Bool) (transfer : Transfer) (answers : List Answer) :
    Option (RC × Transfer) :=
  if operation.left transfer = 0 then some (.success, transfer)
  else
    match answers with
    | [] => none
    | .again :: rest => operation.loop ends transfer rest
    | .fails :: _ => some (operation.failure, transfer)
    | .moves count :: rest =>
      if operation.moved transfer count = [] ∧ ends then some (operation.failure, transfer)
      else operation.loop ends (operation.move transfer count) rest

end Operation

structure Call where
  operation : Operation
  pageNum : Int
  seeks : Bool
  answers : List Answer

/-- `lseek` fails for a negative offset. -/
def legacy (file : File) (call : Call) : Option (RC × List Byte × File) :=
  if call.pageNum < 0 ∨ !call.seeks then some (.ioerrSeek, [], file)
  else
    (call.operation.loop (call.operation.failure = .ioerrRead)
      (call.operation.start file.content (call.pageNum.toNat * pageSize)) call.answers).map
        fun (rc, transfer) => (rc, transfer.buf, ⟨transfer.content, transfer.offset⟩)

/-- `pread` and `pwrite` fail for a negative offset. -/
def positional (content : List Byte) (call : Call) : Option (RC × List Byte × List Byte) :=
  if call.pageNum < 0 then some (call.operation.failure, [], content)
  else
    (call.operation.loop true
      (call.operation.start content (call.pageNum.toNat * pageSize)) call.answers).map
        fun (rc, transfer) => (rc, transfer.buf, transfer.content)

/-- What a caller is told. The codes for a negative page number are not compared. -/
def report (call : Call) (rc : RC) : RC :=
  if call.pageNum < 0 ∧ rc ≠ .success then .ioerrSeek else rc

/-- The results of the calls that return, and the file after them. -/
def run {State : Type} (backend : State → Call → Option (RC × List Byte × State)) :
    State → List Call → List (RC × List Byte) × State
  | state, [] => ([], state)
  | state, call :: calls =>
    match backend state call with
    | none => ([], state)
    | some (rc, bytes, next) =>
      let (results, last) := run backend next calls
      ((report call rc, bytes) :: results, last)

/-- No seek of its own fails and no write call answers that it wrote nothing. -/
def Regular (call : Call) : Prop :=
  call.seeks = true ∧ (call.operation.failure = .ioerrWrite → .moves 0 ∉ call.answers)

theorem write_loop {answers : List Answer} (regular : .moves 0 ∉ answers) (page : List Byte)
    (transfer : Transfer) : (Operation.writePage page).loop false transfer answers =
      (Operation.writePage page).loop true transfer answers := by
  induction answers generalizing transfer with
  | nil => rfl
  | cons answer rest ih =>
    obtain ⟨first, later⟩ := not_or.mp (mem_cons.not.mp regular)
    have same := ih later
    unfold Operation.loop
    split
    · rfl
    · rename_i unwritten
      cases answer with
      | again => exact same transfer
      | fails => rfl
      | moves count =>
        have some : transfer.buf.take count ≠ [] := by
          simp only [ne_eq, take_eq_nil_iff, not_or]
          exact ⟨fun none => first (none ▸ rfl), fun none => unwritten (length_eq_zero_iff.mpr none)⟩
        simp [Operation.moved, some, same]

theorem loops_agree {call : Call} (regular : Regular call) (transfer : Transfer) :
    call.operation.loop (call.operation.failure = .ioerrRead) transfer call.answers =
      call.operation.loop true transfer call.answers := by
  cases kind : call.operation with
  | readPage => rfl
  | writePage page => exact write_loop (regular.2 (by rw [kind]; rfl)) page transfer

theorem backends_agree {calls : List Call} (regular : ∀ call ∈ calls, Regular call) (file : File) :
    (run legacy file calls).1 = (run positional file.content calls).1 ∧
      (run legacy file calls).2.content = (run positional file.content calls).2 := by
  induction calls generalizing file with
  | nil => exact ⟨rfl, rfl⟩
  | cons call calls ih =>
    obtain ⟨first, later⟩ := forall_mem_cons.mp regular
    have same := ih later
    rw [run, run, legacy, positional]
    by_cases negative : call.pageNum < 0
    · have failed : call.operation.failure ≠ .success := by
        cases call.operation <;> simp [Operation.failure]
      simp [negative, report, failed, same file]
    · simp only [negative, first.1, loops_agree first, false_or, Bool.not_true, Bool.false_eq_true,
        if_false]
      cases call.operation.loop true _ call.answers with
      | none => exact ⟨rfl, rfl⟩
      | some result =>
        have rest := same ⟨result.2.content, result.2.offset⟩
        simp [rest]

def partialWrite : Call := ⟨.writePage (replicate pageSize 1), 3, true, [.moves 5, .again, .moves 8187]⟩

theorem partial_write_agrees : (run legacy ⟨[], 0⟩ [partialWrite]).2.content =
    (run positional [] [partialWrite]).2 :=
  (backends_agree (by simp [Regular, partialWrite]) ⟨[], 0⟩).2

def slowWrite : Call := ⟨.writePage (replicate pageSize 1), 0, true, [.moves 0, .moves pageSize]⟩

theorem slow_write_differs : (run legacy ⟨[], 0⟩ [slowWrite]).1.map Prod.fst = [.success] ∧
    (run positional [] [slowWrite]).1.map Prod.fst = [.ioerrWrite] := by
  have some : pageSize ≠ 0 := by decide
  constructor
  · simp [run, legacy, slowWrite, report, Operation.loop, Operation.left, Operation.start,
      Operation.moved, Operation.move, Operation.failure, some]
  · simp [run, positional, slowWrite, report, Operation.loop, Operation.left, Operation.start,
      Operation.moved, Operation.failure, some]

end CsuDbms.PageIoModel
