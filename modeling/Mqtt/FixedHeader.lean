import Mqtt.Wire.VarInt

/-!
Fixed headers: the packet type with its flags, and the number of bytes behind the header. A frame is
a header together with those bytes.
-/
namespace Mqtt

namespace PacketType

def publish : UInt8 := 0b0011

def disconnect : UInt8 := 0b1110

end PacketType

structure FixedHeader where
  firstByte : UInt8
  remainingLength : Nat
deriving DecidableEq, Repr

namespace FixedHeader

def packetType (header : FixedHeader) : UInt8 := header.firstByte >>> 4

/-- What the flags mean depends on the packet type. -/
def flags (header : FixedHeader) : UInt8 := header.firstByte &&& 0b1111

end FixedHeader

structure Frame where
  header : FixedHeader
  body : Bytes
deriving DecidableEq, Repr

end Mqtt
