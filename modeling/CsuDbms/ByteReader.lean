import CsuDbms.LittleEndian

/-!
# Reading values off a byte string

A reader takes a value off the front of a byte string, fails with an error, or is left
by an exception. Each basic reader has one lemma that says when it succeeds, in terms of
what a writer would have written, so that a format is read exactly as it is written.
Nothing here names a particular format.
-/

namespace CsuDbms.ByteReader

open LittleEndian List Option

inductive Outcome (Error Value : Type) where
  | ok (value : Value)
  | error (code : Error)
  | thrown
  deriving DecidableEq

def Reader (Error Value : Type) := List Byte → Outcome Error (Value × List Byte)

variable {Error Value Result : Type}

instance : Monad (Reader Error) where
  pure value := fun bytes => .ok (value, bytes)
  bind reader next := fun bytes =>
    match reader bytes with
    | .ok (value, rest) => next value rest
    | .error code => .error code
    | .thrown => .thrown

def fail (code : Error) : Reader Error Value := fun _ => .error code

def throw : Reader Error Value := fun _ => .thrown

def take (count : Nat) (short : Error) : Reader Error (List Byte) := fun bytes =>
  if bytes.length < count then .error short else .ok (bytes.take count, bytes.drop count)

def writeInt32 (value : BitVec 32) : List Byte := encodeNat 4 value.toNat

def readInt32 (short : Error) : Reader Error (BitVec 32) := do
  let bytes ← take 4 short
  pure (BitVec.ofNat 32 (decodeNat bytes))

def many (reader : Reader Error Value) : Nat → List Byte → Option (Outcome Error (List Value))
  | _, [] => some (.ok [])
  | 0, _ :: _ => none
  | fuel + 1, byte :: rest =>
    match reader (byte :: rest) with
    | .error code => some (.error code)
    | .thrown => some .thrown
    | .ok (value, rest) =>
      (many reader fuel rest).map fun
        | .ok values => .ok (value :: values)
        | outcome => outcome

variable {bytes : List Byte} {reader : Reader Error Value}

section Basic

variable {value : Value} {rest : List Byte}

@[simp] theorem pure_eq_ok {result : Value} :
    (pure value : Reader Error Value) bytes = .ok
    (result, rest) ↔ value = result ∧ bytes = rest := by
  change Outcome.ok (value, bytes) = .ok (result, rest) ↔ _
  simp

@[simp] theorem pure_ne_thrown :
    (pure value : Reader Error Value) bytes ≠ .thrown := fun same => nomatch same

variable {next : Value → Reader Error Result}

theorem bind_apply (reader : Reader Error Value) (next : Value → Reader Error Result)
    (bytes : List Byte) :
    (reader >>= next) bytes = match reader bytes with
      | .ok (value, rest) => next value rest
      | .error code => .error code
      | .thrown => .thrown := rfl

@[simp] theorem bind_eq_ok {result : Result} :
    (reader >>= next) bytes = .ok (result, rest) ↔
      ∃ value middle, reader bytes = .ok (value, middle) ∧ next value middle = .ok (result, rest) := by
  rw [bind_apply]
  rcases reader bytes with ⟨value, middle⟩ | code | _ <;> simp

section

@[simp] theorem bind_eq_thrown :
    (reader >>= next) bytes = .thrown ↔ reader bytes = .thrown ∨
      ∃ value middle, reader bytes = .ok (value, middle) ∧ next value middle = .thrown := by
  rw [bind_apply]
  rcases reader bytes with ⟨value, middle⟩ | code | _ <;> simp

@[simp] theorem fail_ne_ok {code : Error} {result : Value × List Byte} :
    (fail code : Reader Error Value) bytes ≠ .ok result := fun same => nomatch same

@[simp] theorem fail_ne_thrown {code : Error} :
    (fail code : Reader Error Value) bytes ≠ .thrown := fun same => nomatch same

@[simp] theorem throw_ne_ok {result : Value × List Byte} :
    (throw : Reader Error Value) bytes ≠ .ok result := fun same => nomatch same

@[simp] theorem throw_eq_thrown :
    (throw : Reader Error Value) bytes = .thrown := rfl

@[simp] theorem take_ne_thrown {count : Nat} {short : Error} :
    take count short bytes ≠ .thrown := by
  rw [take]
  split_ifs <;> exact fun same => nomatch same

end

variable {short : Error}

theorem take_eq_ok {count : Nat} {value : List Byte} :
    take count short bytes = .ok (value, rest) ↔ value.length = count ∧ bytes = value ++ rest := by
  rw [take]
  constructor
  · intro done
    split_ifs at done with missing
    obtain ⟨rfl, rfl⟩ := Prod.mk.inj (Outcome.ok.inj done)
    exact ⟨length_take_of_le (Nat.not_lt.mp missing), (take_append_drop ..).symm⟩
  · rintro ⟨rfl, rfl⟩
    rw [if_neg (by simp), take_left, drop_left]

@[simp] theorem length_writeInt32 (value : BitVec 32) : (writeInt32 value).length = 4 :=
  length_encode_nat ..

theorem readInt32_ne_thrown :
    readInt32 short bytes ≠ .thrown := by
  simp [readInt32]

theorem readInt32_eq_ok {value : BitVec 32} :
    readInt32 short bytes = .ok (value, rest) ↔ bytes = writeInt32 value ++ rest := by
  simp only [readInt32, bind_eq_ok, take_eq_ok, pure_eq_ok]
  constructor
  · rintro ⟨word, middle, ⟨length, rfl⟩, rfl, rfl⟩
    have small : decodeNat word < 2 ^ 32 := by
      have less := decode_nat_lt word
      rw [length] at less
      exact less
    rw [writeInt32, BitVec.toNat_ofNat, Nat.mod_eq_of_lt small, ← length, encode_decode_nat]
  · rintro rfl
    refine ⟨writeInt32 value, rest, ⟨length_writeInt32 value, rfl⟩, ?_, rfl⟩
    have small : value.toNat < 256 ^ 4 := value.isLt
    rw [writeInt32, decode_encode_nat, Nat.mod_eq_of_lt small, BitVec.ofNat_toNat,
      BitVec.setWidth_eq]

theorem bind_of_ok {middle : List Byte} (read : reader bytes = .ok (value, middle)) :
    (reader >>= next) bytes = next value middle := by
  rw [bind_apply, read]

@[simp] theorem readInt32_bind {next : BitVec 32 → Reader Error Result} (value : BitVec 32)
    (rest : List Byte) :
    (readInt32 short >>= next) (writeInt32 value ++ rest) = next value rest :=
  bind_of_ok (readInt32_eq_ok.mpr rfl)

end Basic

section Many

variable {encode : Value → List Byte}

def Outcome.cons (value : Value) : Outcome Error (List Value) → Outcome Error (List Value)
  | .ok values => .ok (value :: values)
  | outcome => outcome

theorem many_nil (fuel : Nat) : many reader fuel [] = some (.ok []) := by
  cases fuel <;> rfl

variable {fuel : Nat}

theorem many_succ_of_ok {rest : List Byte} {value : Value} (nonempty : bytes ≠ [])
    (read : reader bytes = .ok (value, rest)) :
    many reader (fuel + 1) bytes = (many reader fuel rest).map (Outcome.cons value) := by
  cases bytes with
  | nil => exact absurd rfl nonempty
  | cons byte tail =>
    rw [many, read]
    exact congrArg₂ Option.map (funext fun outcome => by cases outcome <;> rfl) rfl

theorem many_succ_of_thrown (nonempty : bytes ≠ []) (read : reader bytes = .thrown) :
    many reader (fuel + 1) bytes = some .thrown := by
  cases bytes with
  | nil => exact absurd rfl nonempty
  | cons byte tail => rw [many, read]

theorem many_of_reads (kept : Value → Value) (values : List Value)
    (reads : ∀ value ∈ values, ∀ rest, reader (encode value ++ rest) = .ok (kept value, rest))
    (nonempty : ∀ value, encode value ≠ [])
    (enough : (values.flatMap encode).length ≤ fuel) :
    many reader fuel (values.flatMap encode) = some (.ok (values.map kept)) := by
  induction values generalizing fuel with
  | nil => exact many_nil fuel
  | cons value values ih =>
    have positive := length_pos_of_ne_nil (nonempty value)
    rw [flatMap_cons, length_append] at enough
    cases fuel with
    | zero => omega
    | succ fuel =>
      have shorter : (values.flatMap encode).length ≤ fuel := by omega
      have later := ih (fun other member => reads other (mem_cons_of_mem _ member)) shorter
      rw [flatMap_cons, many_succ_of_ok (by simp [nonempty value])
        (reads value mem_cons_self _), later]
      rfl

theorem many_eq_some {outcome : Outcome Error (List Value)}
    (done : many reader fuel bytes = some outcome) :
    bytes = [] ∧ outcome = .ok [] ∨
      bytes ≠ [] ∧ ∃ left, fuel = left + 1 ∧
        ((∃ code, reader bytes = .error code ∧ outcome = .error code) ∨
          reader bytes = .thrown ∧ outcome = .thrown ∨
          ∃ value rest later, reader bytes = .ok (value, rest) ∧
            many reader left rest = some later ∧ outcome = later.cons value) := by
  cases bytes with
  | nil => exact .inl ⟨rfl, by simpa [many_nil, eq_comm] using done⟩
  | cons byte tail =>
    refine .inr ⟨cons_ne_nil _ _, ?_⟩
    cases fuel with
    | zero => exact absurd done (by simp [many])
    | succ fuel =>
      refine ⟨fuel, rfl, ?_⟩
      cases read : reader (byte :: tail) with
      | error code =>
        rw [many, read] at done
        exact .inl ⟨code, rfl, (some.inj done).symm⟩
      | thrown =>
        rw [many, read] at done
        exact .inr (.inl ⟨rfl, (some.inj done).symm⟩)
      | ok result =>
        obtain ⟨value, rest⟩ := result
        rw [many_succ_of_ok (cons_ne_nil _ _) read, map_eq_some_iff] at done
        obtain ⟨later, more, same⟩ := done
        exact .inr (.inr ⟨value, rest, later, rfl, more, same.symm⟩)

variable {values : List Value}

theorem many_induction {motive : List Byte → List Value → Prop} (nil : motive [] [])
    (cons : ∀ bytes value rest values, reader bytes = .ok (value, rest) → motive rest values →
      motive bytes (value :: values))
    (done : many reader fuel bytes = some (.ok values)) :
    motive bytes values := by
  induction fuel generalizing bytes values with
  | zero =>
    rcases many_eq_some done with ⟨rfl, same⟩ | ⟨_, _, impossible, _⟩
    · exact Outcome.ok.inj same ▸ nil
    · cases impossible
  | succ fuel ih =>
    rcases many_eq_some done with ⟨rfl, same⟩ | ⟨_, left, ⟨⟩, failed | thrown | more⟩
    · exact Outcome.ok.inj same ▸ nil
    · obtain ⟨_, _, impossible⟩ := failed
      cases impossible
    · cases thrown.2
    · obtain ⟨value, rest, later, read, more, same⟩ := more
      cases later with
      | ok others =>
        obtain rfl := Outcome.ok.inj same
        exact cons _ _ _ _ read (ih more)
      | error code => cases same
      | thrown => cases same

theorem many_forall {property : Value → Prop}
    (good : ∀ bytes value rest, reader bytes = .ok (value, rest) → property value)
    (done : many reader fuel bytes = some (.ok values)) :
    ∀ value ∈ values, property value := by
  refine many_induction (motive := fun _ values => ∀ value ∈ values, property value)
    (forall_mem_nil _) ?_ done
  exact fun bytes value rest values read later =>
    forall_mem_cons.mpr ⟨good bytes value rest read, later⟩

variable (exact : ∀ bytes value rest, reader bytes = .ok (value, rest) → bytes = encode value ++ rest)

include exact

theorem many_exact (done : many reader fuel bytes = some (.ok values)) :
    values.flatMap encode = bytes := by
  refine many_induction (motive := fun bytes values => values.flatMap encode = bytes) rfl ?_ done
  intro bytes value rest values read later
  rw [flatMap_cons, later, ← exact bytes value rest read]

theorem length_rest_le {value : Value} (nonempty : ∀ value, encode value ≠ [])
    (enough : bytes.length ≤ fuel + 1) (read : reader bytes = .ok (value, rest)) :
    rest.length ≤ fuel := by
  have length := congrArg length (exact _ _ _ read)
  have positive := length_pos_of_ne_nil (nonempty value)
  rw [length_append] at length
  omega

theorem many_total (nonempty : ∀ value, encode value ≠ []) (enough : bytes.length ≤ fuel) :
    ∃ outcome, many reader fuel bytes = some outcome := by
  induction fuel generalizing bytes with
  | zero =>
    rw [length_eq_zero_iff.mp (Nat.le_zero.mp enough)]
    exact ⟨.ok [], many_nil 0⟩
  | succ fuel ih =>
    cases bytes with
    | nil => exact ⟨.ok [], rfl⟩
    | cons byte tail =>
      cases read : reader (byte :: tail) with
      | error code => exact ⟨.error code, by rw [many, read]⟩
      | thrown => exact ⟨.thrown, by rw [many, read]⟩
      | ok result =>
        obtain ⟨value, rest⟩ := result
        obtain ⟨later, more⟩ := ih (length_rest_le exact nonempty enough read)
        exact ⟨later.cons value, by
          rw [many_succ_of_ok (cons_ne_nil _ _) read, more, map_some]⟩

theorem many_thrown_iff
    (again : ∀ bytes value rest, reader bytes = .ok (value, rest) →
      ∀ other, reader (encode value ++ other) = .ok (value, other))
    (nonempty : ∀ value, encode value ≠ []) (enough : bytes.length ≤ fuel) :
    many reader fuel bytes = some .thrown ↔
      ∃ (values : List Value) (rest : List Byte),
        bytes = values.flatMap encode ++ rest ∧ rest ≠ [] ∧ reader rest = .thrown ∧
        ∀ value ∈ values, ∀ other, reader (encode value ++ other) = .ok (value, other) := by
  constructor
  · intro done
    induction fuel generalizing bytes with
    | zero =>
      rcases many_eq_some done with ⟨_, same⟩ | ⟨_, _, impossible, _⟩
      · cases same
      · cases impossible
    | succ fuel ih =>
      rcases many_eq_some done with ⟨_, same⟩ | ⟨some, left, ⟨⟩, failed | thrown | more⟩
      · cases same
      · obtain ⟨_, _, impossible⟩ := failed
        cases impossible
      · exact ⟨[], bytes, rfl, some, thrown.1, by simp⟩
      · obtain ⟨value, rest, later, read, more, same⟩ := more
        cases later with
        | ok others => cases same
        | error code => cases same
        | thrown =>
          obtain ⟨values, tail, rfl, unread, raised, readable⟩ :=
            ih (length_rest_le exact nonempty enough read) more
          refine ⟨value :: values, tail, ?_, unread, raised, ?_⟩
          · rw [exact _ _ _ read, flatMap_cons, append_assoc]
          · rintro other (_ | ⟨_, member⟩)
            · exact again _ _ _ read
            · exact readable other member
  · rintro ⟨values, rest, rfl, unread, raised, readable⟩
    induction values generalizing fuel with
    | nil =>
      cases fuel with
      | zero => exact absurd enough (by simpa using unread)
      | succ fuel => exact many_succ_of_thrown unread raised
    | cons value values ih =>
      have positive := length_pos_of_ne_nil (nonempty value)
      rw [flatMap_cons, append_assoc] at enough ⊢
      cases fuel with
      | zero =>
        rw [length_append] at enough
        omega
      | succ fuel =>
        rw [length_append] at enough
        have shorter : (values.flatMap encode ++ rest).length ≤ fuel := by omega
        have later := ih shorter fun other member => readable other (mem_cons_of_mem _ member)
        rw [many_succ_of_ok (by simp [nonempty value]) (readable value mem_cons_self _),
          later]
        rfl

end Many

end CsuDbms.ByteReader
