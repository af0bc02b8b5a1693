import Mqtt.Text.Utf8

/-!
Errors of the field readers, the framing and the encoders. Only a failed transfer carries a text of
its own, and no two failed transfers are held to be the same.
-/
namespace Mqtt

inductive WireError
  | invalidLength
  | malformedPacket
  /-- A property that may stand once in a table stood there twice. -/
  | duplicateProperty
  | maxSizeExceeded
  /-- A PUBLISH with acknowledgement needs a packet identifier. -/
  | packetIdRequired
  | transfer (reason : String)
  | illFormedText (fault : Utf8.IllFormed)
deriving DecidableEq, Repr

namespace WireError

def message : WireError → String
  | invalidLength => "InvalidLength"
  | malformedPacket => "MalformedPacket"
  | duplicateProperty => "DuplicateProperty"
  | maxSizeExceeded => "MaxSizeExceeded"
  | packetIdRequired => "PacketIdRequired"
  | transfer reason => "io error: " ++ reason
  | illFormedText fault => "utf8 error: " ++ fault.message

/-- Whether two errors report the same cause; a failed transfer is like no other, itself included. -/
def sameCause (first second : WireError) : Bool :=
  match first with
  | transfer _ => false
  | _ => first == second

end WireError
end Mqtt
