import Mqtt.Packet

/-!
Framing. Decoding takes frames off the front of a receive buffer; a header is taken as soon as it is
complete, and its body once all of it has arrived. Encoding writes packets behind what is in an
output buffer.
-/
namespace Mqtt

structure Codec where
  /-- The header of a frame whose body is still to come. -/
  pending : Option FixedHeader := none
  /-- The longest body that is accepted; zero stands for no limit. -/
  maxFrameSize : Nat := 0
  /-- The longest packet that the peer accepts; zero stands for the protocol's own limit. -/
  maxPacketSize : Nat := 0
deriving DecidableEq, Repr

namespace Codec

/-- What decoding leaves: the frame if there is one, the codec to go on with, and the bytes that
were not taken. -/
structure Progress where
  frame : Option Frame
  codec : Codec
  buffer : Bytes
deriving DecidableEq, Repr

/-- A complete header at the front of a buffer, with the number of bytes it takes. -/
def header (codec : Codec) : Bytes → Except WireError (Option (FixedHeader × Nat))
  | [] => .ok none
  | firstByte :: rest =>
    match VarInt.peek rest with
    | .error error => .error error
    | .ok none => .ok none
    | .ok (some (length, width)) =>
      if codec.maxFrameSize ≠ 0 ∧ codec.maxFrameSize < length then .error .maxSizeExceeded
      else .ok (some (⟨firstByte, length⟩, width + 1))

def body (codec : Codec) (header : FixedHeader) (buffer : Bytes) : Progress :=
  let content := buffer.take header.remainingLength
  if content.length < header.remainingLength then
    ⟨none, { codec with pending := some header }, buffer⟩
  else
    ⟨some ⟨header, content⟩, { codec with pending := none }, buffer.drop header.remainingLength⟩

/-- Nothing is taken off the buffer after an error, so that every further call has the same one. -/
def decode (codec : Codec) (buffer : Bytes) : Except WireError Progress :=
  match codec.pending with
  | some header => .ok (codec.body header buffer)
  | none =>
    match codec.header buffer with
    | .error error => .error error
    | .ok none => .ok ⟨none, codec, buffer⟩
    | .ok (some (header, width)) => .ok (codec.body header (buffer.drop width))

/-- The limit that the content of a packet is held to. -/
def limit (codec : Codec) : Nat :=
  if codec.maxPacketSize = 0 then VarInt.maximum else codec.maxPacketSize

def encoding (codec : Codec) (packet : Packet) : Encoding :=
  let size := packet.size codec.limit
  if codec.limit < size then .fail .maxSizeExceeded else packet.encoding size

/-- Writes behind `output`. A packet that fails halfway leaves what was written of it. -/
def encode (codec : Codec) (packet : Packet) (output : Bytes) : Except WireError Unit × Bytes :=
  let written := codec.encoding packet
  (written.result, output ++ written.bytes)

end Codec
end Mqtt
