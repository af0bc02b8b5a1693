import Mqtt.WireError

/-!
Variable byte integers: seven bits a byte, the lowest first, and the high bit set on every byte but
the last. A reader accepts at most four bytes and does not ask for the shortest form.
-/
namespace Mqtt.VarInt

inductive Fault
  /-- The input ends before the integer does. -/
  | incomplete
  /-- A fourth byte says that more follow. -/
  | tooLong
deriving DecidableEq, Repr

/-- The largest value of four bytes. -/
def maximum : Nat := 268435455

/-- Reads an integer of at most `more + 1` bytes, with the number of bytes it takes. -/
def decode : Nat → Bytes → Except Fault (Nat × Nat)
  | _, [] => .error .incomplete
  | more, byte :: rest =>
    if byte < 128 then .ok (byte.toNat, 1)
    else match more with
      | 0 => .error .tooLong
      | more + 1 => (decode more rest).map fun (high, used) => (byte.toNat - 128 + 128 * high, used + 1)
termination_by structural _ bytes => bytes

/-- How many integers fit into `more + 1` bytes. -/
def capacity : Nat → Nat
  | 0 => 128
  | more + 1 => 128 * capacity more

def encode (number : Nat) : Bytes :=
  if number < 128 then [UInt8.ofNat number]
  else UInt8.ofNat (number % 128 + 128) :: encode (number / 128)
termination_by number

/-- The number of bytes that an integer up to `maximum` is written with. -/
def size (number : Nat) : Nat :=
  if number ≤ 127 then 1
  else if number ≤ 16383 then 2
  else if number ≤ 2097151 then 3
  else 4

/-- The length of a block, from the size of the block together with its length field. -/
def blockLength (total : Nat) : Nat :=
  total - size (total - size total + 1)

theorem decode_used {more : Nat} {bytes : Bytes} {number used : Nat}
    (found : decode more bytes = .ok (number, used)) :
    1 ≤ used ∧ used ≤ more + 1 ∧ used ≤ bytes.length := by
  induction bytes generalizing more number used with
  | nil => simp [decode] at found
  | cons byte rest ih =>
    simp only [decode] at found
    split at found
    · cases found; simp
    · cases more with
      | zero => cases found
      | succ more =>
        cases answer : decode more rest with
        | error fault => simp only [answer, Except.map] at found; cases found
        | ok pair =>
          simp only [answer, Except.map] at found
          cases found
          have step := ih answer
          simp only [List.length_cons]
          omega

def reader : Reader Fault Nat where
  run := decode 3
  within found := (decode_used found).2.2

/-- An identifier or a length takes at least one byte. -/
theorem reader_progress {bytes : Bytes} {number used : Nat}
    (found : reader.run bytes = .ok (number, used)) : 0 < used := (decode_used found).1

private theorem toNat_byte {number : Nat} (small : number < 256) :
    (UInt8.ofNat number).toNat = number := by
  simpa using Nat.mod_eq_of_lt small

theorem encode_of_lt {number : Nat} (small : number < 128) : encode number = [UInt8.ofNat number] := by
  rw [encode, if_pos small]

theorem encode_of_le {number : Nat} (large : 128 ≤ number) :
    encode number = UInt8.ofNat (number % 128 + 128) :: encode (number / 128) := by
  rw [encode, if_neg (Nat.not_lt.mpr large)]

private theorem decode_small {more number : Nat} (small : number < 128) (rest : Bytes) :
    decode more (encode number ++ rest) = .ok (number, (encode number).length) := by
  have byte := toNat_byte (show number < 256 by omega)
  have last : UInt8.ofNat number < 128 := by
    rw [UInt8.lt_iff_toNat_lt, byte]
    exact small
  rw [encode_of_lt small]
  simp only [List.singleton_append, decode, if_pos last, byte, List.length_singleton]

/-- Every byte of an integer but the last says that more follow. -/
private theorem continues (number : Nat) : ¬ UInt8.ofNat (number % 128 + 128) < 128 := by
  rw [UInt8.lt_iff_toNat_lt, toNat_byte (by omega)]
  exact Nat.not_lt.mpr (Nat.le_add_left ..)

/-- An integer is read back if the bytes that may follow the first have room for it. -/
theorem decode_encode {more number : Nat} (fits : number < capacity more) (rest : Bytes) :
    decode more (encode number ++ rest) = .ok (number, (encode number).length) := by
  induction more generalizing number with
  | zero => exact decode_small fits rest
  | succ more ih =>
    by_cases small : number < 128
    · exact decode_small small rest
    · have large : 128 ≤ number := Nat.le_of_not_lt small
      have byte := toNat_byte (show number % 128 + 128 < 256 by omega)
      have inner : number / 128 < capacity more := Nat.div_lt_of_lt_mul fits
      rw [encode_of_le large, List.cons_append, decode, if_neg (continues number)]
      simp only [ih inner, Except.map, byte, List.length_cons]
      congr 2
      omega

private theorem capacity_pos (more : Nat) : 0 < capacity more := by
  induction more with
  | zero => decide
  | succ more ih => exact Nat.mul_pos (by decide) ih

/-- An integer that the bytes have no room for takes two bytes at least, and what is left of it has no
room in the bytes behind the first. -/
private theorem le_div_of_capacity_le {more number : Nat} (large : capacity (more + 1) ≤ number) :
    128 ≤ number ∧ capacity more ≤ number / 128 := by
  have room := capacity_pos more
  rw [capacity] at large
  omega

theorem decode_encode_of_le {more number : Nat} (large : capacity more ≤ number) (rest : Bytes) :
    decode more (encode number ++ rest) = .error .tooLong := by
  induction more generalizing number with
  | zero =>
    rw [encode_of_le large, List.cons_append, decode, if_neg (continues number)]
  | succ more ih =>
    obtain ⟨wide, inner⟩ := le_div_of_capacity_le large
    rw [encode_of_le wide, List.cons_append, decode, if_neg (continues number)]
    simp only [ih inner, Except.map]

/-- A reader does not accept what is written of an integer above the largest. -/
theorem run_overlong {number : Nat} (overlong : maximum < number) (rest : Bytes) :
    reader.run (encode number ++ rest) = .error .tooLong := by
  have large : capacity 3 ≤ number := overlong
  exact decode_encode_of_le large rest

theorem lt_length_encode {more number : Nat} (large : capacity more ≤ number) :
    more + 1 < (encode number).length := by
  induction more generalizing number with
  | zero =>
    have behind : 0 < (encode (number / 128)).length := by
      unfold encode
      split <;> simp
    rw [encode_of_le large, List.length_cons]
    exact Nat.succ_lt_succ behind
  | succ more ih =>
    obtain ⟨wide, inner⟩ := le_div_of_capacity_le large
    rw [encode_of_le wide, List.length_cons]
    exact Nat.succ_lt_succ (ih inner)

theorem reads_encode {number : Nat} (fits : number ≤ maximum) :
    reader.Reads number (encode number) :=
  fun rest => decode_encode (Nat.lt_succ_of_le fits) rest

/-- The size is that of the written bytes. -/
theorem length_encode {number : Nat} (fits : number ≤ maximum) :
    (encode number).length = size number := by
  unfold maximum at fits
  unfold size
  split
  · rw [encode_of_lt (by omega)]; rfl
  · rw [encode_of_le (by omega), List.length_cons]
    split
    · rw [encode_of_lt (by omega)]; rfl
    · rw [encode_of_le (by omega), List.length_cons]
      split
      · rw [encode_of_lt (by omega)]; rfl
      · rw [encode_of_le (by omega), encode_of_lt (by omega)]; rfl

/-- A block and its length field have one size only, so the length is found from it. -/
theorem blockLength_size (length : Nat) : blockLength (size length + length) = length := by
  unfold blockLength size
  repeat' split
  all_goals omega

/-- An integer that may not have arrived in full: nothing is known until its last byte is there. -/
def peek (bytes : Bytes) : Except WireError (Option (Nat × Nat)) :=
  match reader.run bytes with
  | .ok found => .ok (some found)
  | .error .incomplete => .ok none
  | .error .tooLong => .error .invalidLength

end Mqtt.VarInt
