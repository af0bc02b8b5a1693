import Mqtt.Wire.Reader

/-!
Whole numbers in a fixed number of bytes, the highest byte first. Numbers that need more bytes lose
their high part.
-/
namespace Mqtt.BigEndian

/-- How many numbers fit into `width` bytes. -/
def span : Nat → Nat
  | 0 => 1
  | width + 1 => span width * 256

/-- The lowest `width` bytes of `number`. -/
def encode : Nat → Nat → Bytes
  | 0, _ => []
  | width + 1, number => UInt8.ofNat (number / span width) :: encode width number

def decode (bytes : Bytes) : Nat :=
  bytes.foldl (fun high byte => high * 256 + byte.toNat) 0

@[simp] theorem length_encode (width number : Nat) : (encode width number).length = width := by
  induction width with
  | zero => rfl
  | succ width ih => simp [encode, ih]

private theorem foldl_eq_add (bytes : Bytes) (high : Nat) :
    bytes.foldl (fun high byte => high * 256 + byte.toNat) high =
      high * span bytes.length + decode bytes := by
  induction bytes generalizing high with
  | nil => simp [decode, span]
  | cons byte rest ih =>
    have behind : decode (byte :: rest) = byte.toNat * span rest.length + decode rest := by
      rw [decode, List.foldl_cons, ih, Nat.zero_mul, Nat.zero_add]
    rw [List.foldl_cons, ih, behind, List.length_cons, span, Nat.add_mul, Nat.mul_assoc,
      Nat.mul_comm 256, Nat.add_assoc]

theorem decode_cons (byte : UInt8) (rest : Bytes) :
    decode (byte :: rest) = byte.toNat * span rest.length + decode rest := by
  rw [decode, List.foldl_cons, foldl_eq_add, Nat.zero_mul, Nat.zero_add]

theorem decode_encode (width number : Nat) : decode (encode width number) = number % span width := by
  induction width with
  | zero => exact (Nat.mod_one number).symm
  | succ width ih =>
    have byte : (UInt8.ofNat (number / span width)).toNat = number / span width % 256 := by simp
    rw [encode, decode_cons, length_encode, ih, byte, span, Nat.mod_mul, Nat.mul_comm, Nat.add_comm]

theorem decode_lt (bytes : Bytes) : decode bytes < span bytes.length := by
  induction bytes with
  | nil => exact Nat.one_pos
  | cons byte rest ih =>
    have grown : (byte.toNat + 1) * span rest.length ≤ 256 * span rest.length :=
      Nat.mul_le_mul_right _ byte.toNat_lt
    rw [decode_cons, List.length_cons, span]
    rw [Nat.add_mul, Nat.one_mul] at grown
    omega

end Mqtt.BigEndian
