import Mqtt.Wire.Reader

/-!
UTF-8 text as bytes. Decoding and encoding are inverse; bytes that are not UTF-8 are located by the
length of their longest well-formed start.
-/
namespace Mqtt.Utf8

/-- Where bytes stop being UTF-8. `length` counts the bytes that cannot belong to any character; it
is absent when the input ends inside a character that was well formed so far. -/
structure IllFormed where
  index : Nat
  length : Option Nat
deriving DecidableEq, Repr

def IllFormed.message : IllFormed → String
  | ⟨index, some length⟩ =>
    "invalid utf-8 sequence of " ++ toString length ++ " bytes from index " ++ toString index
  | ⟨index, none⟩ => "incomplete utf-8 byte sequence from index " ++ toString index

/-- The lowest and the highest value of each byte that has to follow `lead`. The second byte is
narrowed where a wider range would admit overlong forms, surrogates or values above U+10FFFF. -/
def trailing (lead : UInt8) : Option (List (UInt8 × UInt8)) :=
  if lead < 0x80 then some []
  else if lead < 0xC2 then none
  else if lead < 0xE0 then some [(0x80, 0xBF)]
  else if lead = 0xE0 then some [(0xA0, 0xBF), (0x80, 0xBF)]
  else if lead = 0xED then some [(0x80, 0x9F), (0x80, 0xBF)]
  else if lead < 0xF0 then some [(0x80, 0xBF), (0x80, 0xBF)]
  else if lead = 0xF0 then some [(0x90, 0xBF), (0x80, 0xBF), (0x80, 0xBF)]
  else if lead < 0xF4 then some [(0x80, 0xBF), (0x80, 0xBF), (0x80, 0xBF)]
  else if lead = 0xF4 then some [(0x80, 0x8F), (0x80, 0xBF), (0x80, 0xBF)]
  else none

/-- Scans inside the character that starts at `index`, of which `seen` bytes were read and which
still needs a byte in each of the given ranges. -/
def scan (index seen : Nat) : List (UInt8 × UInt8) → Bytes → Option IllFormed
  | [], [] => none
  | _ :: _, [] => some ⟨index, none⟩
  | (low, high) :: ranges, byte :: rest =>
    if low ≤ byte ∧ byte ≤ high then scan index (seen + 1) ranges rest
    else some ⟨index, some seen⟩
  | [], byte :: rest =>
    match trailing byte with
    | none => some ⟨index + seen, some 1⟩
    | some ranges => scan (index + seen) 1 ranges rest

def firstIllFormed (bytes : Bytes) : Option IllFormed := scan 0 0 [] bytes

def decode (bytes : Bytes) : Except IllFormed String :=
  match String.fromUTF8? bytes.toByteArray with
  | some text => .ok text
  | none => .error ((firstIllFormed bytes).getD ⟨bytes.length, none⟩)

def encode (text : String) : Bytes := text.toByteArray.data.toList

@[simp] theorem length_encode (text : String) : (encode text).length = text.utf8ByteSize := rfl

theorem toByteArray_encode (text : String) : (encode text).toByteArray = text.toByteArray := by
  apply ByteArray.ext
  rw [List.data_toByteArray, encode, Array.toArray_toList]

@[simp] theorem decode_encode (text : String) : decode (encode text) = .ok text := by
  have valid : text.toByteArray.IsValidUTF8 := text.isValidUTF8
  simp [decode, String.fromUTF8?, toByteArray_encode, valid, String.fromUTF8]

theorem decode_eq_ok_iff {bytes : Bytes} {text : String} :
    decode bytes = .ok text ↔ bytes = encode text := by
  constructor
  · intro found
    simp only [decode, String.fromUTF8?] at found
    split at found
    · rename_i same
      split at same
      · cases same
        cases found
        simp [encode, String.fromUTF8]
      · cases same
    · cases found
  · rintro rfl
    exact decode_encode text

theorem encode_injective {first second : String} (same : encode first = encode second) :
    first = second := by
  have decoded := decode_encode first
  rw [same, decode_encode] at decoded
  exact (Except.ok.inj decoded).symm

/-- Bytes are UTF-8 when some text is written with them. -/
def Valid (bytes : Bytes) : Prop := ∃ text, bytes = encode text

theorem valid_iff_decode {bytes : Bytes} : Valid bytes ↔ (decode bytes).toOption.isSome := by
  constructor
  · rintro ⟨text, rfl⟩
    simp [Except.toOption]
  · intro found
    cases answer : decode bytes with
    | error fault => rw [answer] at found; cases found
    | ok text => exact ⟨text, decode_eq_ok_iff.mp answer⟩

instance (bytes : Bytes) : Decidable (Valid bytes) := decidable_of_iff _ valid_iff_decode.symm

end Mqtt.Utf8
