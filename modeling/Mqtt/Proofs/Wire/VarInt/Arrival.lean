import Mathlib.Data.List.Induction
import Mqtt.Proofs.Wire.VarInt

/-!
Integers that may not have arrived in full. Any bytes start with an integer, or end inside one, or are
not the start of one, and the high bits of the first four decide which it is. A register of 32 bits has
room for every sum on the way.
-/
namespace Mqtt.VarInt

/-- A register of 32 bits that takes in an integer byte by byte: the sum so far, and the place of the
next byte. -/
structure Register where
  sum : UInt32 := 0
  shift : UInt32 := 0

/-- Adds the low bits of a byte at their place. What has no room in the register is lost. -/
def Register.add (register : Register) (byte : UInt8) : Register where
  sum := register.sum + ((byte &&& 0x7F).toUInt32 <<< register.shift)
  shift := register.shift + 7

def Register.of (bytes : Bytes) : Register := bytes.foldl add {}

theorem Register.of_concat (bytes : Bytes) (byte : UInt8) :
    Register.of (bytes ++ [byte]) = (Register.of bytes).add byte := by
  simp [Register.of]

private theorem toNat_low (byte : UInt8) : (byte &&& 0x7F).toUInt32.toNat = byte.toNat % 128 := by
  have mask : byte.toNat &&& (2 ^ 7 - 1) = byte.toNat % 2 ^ 7 := Nat.and_two_pow_sub_one_eq_mod _ 7
  rw [UInt8.toNat_toUInt32, UInt8.toNat_and]
  exact mask

/-- Of up to four bytes nothing is lost. -/
theorem Register.toNat_of {bytes : Bytes} (short : bytes.length ≤ 4) :
    (Register.of bytes).sum.toNat = value bytes ∧
      (Register.of bytes).shift.toNat = 7 * bytes.length := by
  induction bytes using List.reverseRecOn with
  | nil => exact ⟨rfl, rfl⟩
  | append_singleton bytes byte ih =>
    rw [List.length_append, List.length_singleton] at short
    obtain ⟨sum, shift⟩ := ih (by omega)
    have room : value bytes + 128 ^ bytes.length * (byte.toNat % 128) < 2 ^ 32 := by
      have bound := value_lt (bytes ++ [byte])
      have power : 128 ^ (bytes ++ [byte]).length ≤ 128 ^ 4 :=
        Nat.pow_le_pow_right (by decide) (by simpa using short)
      rw [value_concat] at bound
      omega
    have place : ((byte &&& 0x7F).toUInt32 <<< (Register.of bytes).shift).toNat =
        128 ^ bytes.length * (byte.toNat % 128) := by
      have inside : 7 * bytes.length % 32 = 7 * bytes.length := Nat.mod_eq_of_lt (by omega)
      rw [UInt32.toNat_shiftLeft, toNat_low, shift, inside, Nat.shiftLeft_eq, Nat.pow_mul, Nat.mul_comm]
      exact Nat.mod_eq_of_lt (Nat.lt_of_le_of_lt (Nat.le_add_left ..) room)
    rw [Register.of_concat, value_concat, List.length_append, List.length_singleton]
    constructor
    · rw [Register.add, UInt32.toNat_add, sum, place]
      exact Nat.mod_eq_of_lt room
    · rw [Register.add, UInt32.toNat_add, shift]
      have seven : (7 : UInt32).toNat = 7 := rfl
      omega

theorem peek_eq_some_iff {bytes : Bytes} {number used : Nat} :
    peek bytes = .ok (some (number, used)) ↔ used ≤ bytes.length ∧ Form number (bytes.take used) := by
  have read : peek bytes = .ok (some (number, used)) ↔ reader.run bytes = .ok (number, used) := by
    unfold peek
    split <;> simp_all
  rw [read]
  constructor
  · intro found
    exact ⟨reader.within found, reader_recognizes.sound found⟩
  · rintro ⟨inside, form⟩
    have found := reader_recognizes.complete form (bytes.drop used)
    rwa [List.take_append_drop, List.length_take, Nat.min_eq_left inside] at found

theorem peek_eq_none_iff {bytes : Bytes} :
    peek bytes = .ok none ↔ bytes.length < 4 ∧ ∀ byte ∈ bytes, 128 ≤ byte := by
  have read : peek bytes = .ok none ↔ decode 3 bytes = .error .incomplete := by
    unfold peek reader
    split <;> simp_all
  rw [read, decode_eq_incomplete_iff, Nat.lt_succ_iff]

theorem peek_eq_error_iff {bytes : Bytes} {error : WireError} :
    peek bytes = .error error ↔
      error = .invalidLength ∧ 4 ≤ bytes.length ∧ ∀ byte ∈ bytes.take 4, 128 ≤ byte := by
  have read : peek bytes = .error error ↔ error = .invalidLength ∧ decode 3 bytes = .error .tooLong := by
    unfold peek reader
    split <;> simp_all [@eq_comm _ error]
  rw [read, decode_eq_tooLong_iff]
  apply and_congr_right
  intro _
  constructor
  · rintro ⟨front, rest, rfl, width, continued⟩
    rw [List.take_left' width, List.length_append]
    exact ⟨by omega, continued⟩
  · rintro ⟨enough, continued⟩
    exact ⟨bytes.take 4, bytes.drop 4, (List.take_append_drop 4 bytes).symm,
      List.length_take_of_le enough, continued⟩

/-- What bytes are as the start of an integer. An integer that is written is found in front of them. One
that starts them is the sum of their low bits, and no other form of it is as short as the one that is
written. Later bytes change nothing but that the integer had not arrived. -/
theorem peek_outcomes (bytes : Bytes) :
    (∀ number ≤ maximum, peek (encode number ++ bytes) = .ok (some (number, size number)) ∧
      (encode number).length = size number) ∧
    (∀ number used, peek bytes = .ok (some (number, used)) ↔
      used ≤ bytes.length ∧ Form number (bytes.take used)) ∧
    (∀ number used, peek bytes = .ok (some (number, used)) →
      number ≤ maximum ∧ size number ≤ used ∧
        (used = size number ↔ bytes.take used = encode number)) ∧
    (peek bytes = .ok none ↔ bytes.length < 4 ∧ ∀ byte ∈ bytes, 128 ≤ byte) ∧
    (∀ error, peek bytes = .error error ↔
      error = .invalidLength ∧ 4 ≤ bytes.length ∧ ∀ byte ∈ bytes.take 4, 128 ≤ byte) ∧
    (peek bytes ≠ .ok none → ∀ rest, peek (bytes ++ rest) = peek bytes) ∧
    (∀ count ≤ 4, (Register.of (bytes.take count)).sum.toNat = value (bytes.take count)) := by
  refine ⟨fun number fits => ?_, fun _ _ => peek_eq_some_iff, fun number used found => ?_,
    peek_eq_none_iff, fun _ => peek_eq_error_iff, peek_append, fun count few => ?_⟩
  · have length := length_encode fits
    refine ⟨peek_eq_some_iff.mpr ?_, length⟩
    rw [← length, List.take_left, List.length_append]
    exact ⟨Nat.le_add_right .., form_encode fits⟩
  · obtain ⟨inside, form⟩ := peek_eq_some_iff.mp found
    have width : (bytes.take used).length = used := List.length_take_of_le inside
    have written := length_encode form.le_maximum
    refine ⟨form.le_maximum, width ▸ form.size_le, fun shortest => ?_, fun same => ?_⟩
    · apply form.eq_of_length (form_encode form.le_maximum)
      rw [width, written, shortest]
    · rw [← written, ← same, width]
  · have short : (bytes.take count).length ≤ 4 := by
      rw [List.length_take]
      omega
    exact (Register.toNat_of short).1

end Mqtt.VarInt
