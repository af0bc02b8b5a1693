import Mqtt.Wire.BigEndian
import Mqtt.Wire.Encoding

/-!
The field types of packets: two and four byte integers, binary data, text and pairs of text. Each
has a reader, an encoding and the size that its encoding is accounted with. A length that does not
fit into two bytes has a size but no encoding.
-/
namespace Mqtt

/-- A name and a value, for which the protocol has no meaning of its own. -/
structure UserProperty where
  name : String
  value : String
deriving DecidableEq, Repr

/-- The longest binary data or text, in bytes. -/
def maximumFieldLength : Nat := 65535

namespace Reader

def uint8 : Reader WireError UInt8 where
  run
    | [] => .error .invalidLength
    | byte :: _ => .ok (byte, 1)
  within {bytes value used} found := by
    cases bytes with
    | nil => cases found
    | cons byte rest => cases found; simp

def uint16 : Reader WireError UInt16 :=
  (fun bytes => UInt16.ofNat (BigEndian.decode bytes)) <$> take .invalidLength 2

def uint32 : Reader WireError UInt32 :=
  (fun bytes => UInt32.ofNat (BigEndian.decode bytes)) <$> take .invalidLength 4

def binary : Reader WireError Bytes :=
  uint16 >>= fun length => take .invalidLength length.toNat

/-- Text fields hold no null character. -/
def plainText (bytes : Bytes) : Except WireError String :=
  match Utf8.decode bytes with
  | .error fault => .error (.illFormedText fault)
  | .ok text => if '\x00' ∈ text.toList then .error .malformedPacket else .ok text

def text : Reader WireError String := binary.andThen plainText

def userProperty : Reader WireError UserProperty := do
  let name ← text
  let value ← text
  return ⟨name, value⟩

end Reader

namespace Encoding

def uint8 (value : UInt8) : Encoding := ofBytes [value]

def uint16 (value : UInt16) : Encoding := ofBytes (BigEndian.encode 2 value.toNat)

def uint32 (value : UInt32) : Encoding := ofBytes (BigEndian.encode 4 value.toNat)

def varInt (value : Nat) : Encoding := ofBytes (VarInt.encode value)

def binary (data : Bytes) : Encoding :=
  if data.length ≤ maximumFieldLength then ofBytes (BigEndian.encode 2 data.length ++ data)
  else fail .invalidLength

def text (value : String) : Encoding := binary (Utf8.encode value)

def userProperty (property : UserProperty) : Encoding :=
  text property.name ++ text property.value

end Encoding

def binarySize (data : Bytes) : Nat := 2 + data.length

def textSize (value : String) : Nat := 2 + value.utf8ByteSize

def UserProperty.size (property : UserProperty) : Nat :=
  textSize property.name + textSize property.value

theorem Encoding.error_binary (data : Bytes) :
    (binary data).error = if data.length ≤ maximumFieldLength then none else some .invalidLength := by
  unfold binary
  split <;> rfl

theorem Encoding.length_binary {data : Bytes} (short : data.length ≤ maximumFieldLength) :
    (binary data).bytes.length = binarySize data := by
  rw [binary, if_pos short, bytes_ofBytes, List.length_append, BigEndian.length_encode]
  rfl

end Mqtt
