import Mqtt.Disconnect.Encode
import Mqtt.FixedHeader
import Mqtt.Publish.Encode

/-!
Packets as a connection hands them over. Types other than PUBLISH and DISCONNECT are passed on as
received.
-/
namespace Mqtt

inductive Packet
  | publish (packet : Publish)
  | disconnect (packet : Disconnect)
  /-- The remaining length of the header is that of the received frame and is not written. -/
  | other (header : FixedHeader) (content : Bytes)
deriving DecidableEq

namespace Packet

def firstByte : Packet → UInt8
  | publish packet => (PacketType.publish <<< 4) ||| packet.flags.encode
  | disconnect _ => PacketType.disconnect <<< 4
  | other header _ => header.firstByte

/-- The number of bytes behind the fixed header. -/
def size (packet : Packet) (limit : Nat) : Nat :=
  match packet with
  | publish packet => packet.size
  | disconnect packet => packet.size limit
  | other _ content => content.length

def content (packet : Packet) (size : Nat) : Encoding :=
  match packet with
  | publish packet => packet.encoding
  | disconnect packet => packet.encoding size
  | other _ content => .ofBytes content

/-- The whole packet, for the size of its content. -/
def encoding (packet : Packet) (size : Nat) : Encoding :=
  .uint8 packet.firstByte ++ .varInt size ++ packet.content size

end Packet
end Mqtt
