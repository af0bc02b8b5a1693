import Mqtt.Publish.Property
import Mqtt.QoS

/-!
PUBLISH packets. The topic is always there: it was either sent or stands for an alias. The fixed
header of the packet carries the three flags.
-/
namespace Mqtt

structure Publish where
  /-- This may be sent again after an earlier attempt. -/
  dup : Bool := false
  retain : Bool := false
  qos : QoS := .atMostOnce
  topic : Topic
  /-- Only packets that are acknowledged have an identifier. -/
  packetId : Option UInt16 := none
  /-- Absent where the packet carries no payload bytes. -/
  payload : Option Bytes := none
  /-- The packet registers the alias among its properties for its topic. -/
  isNewAlias : Bool := false
  properties : Publish.Properties := {}
deriving DecidableEq

namespace Publish

structure Flags where
  dup : Bool
  qos : QoS
  retain : Bool
deriving DecidableEq, Repr

namespace Flags

/-- Bits above the lowest four belong to the packet type. -/
def decode (byte : UInt8) : Except Violation Flags :=
  match QoS.ofCode? ((byte &&& 0b0110) >>> 1) with
  | none => .error .wrongQoS
  | some qos =>
    let dup := byte &&& 0b1000 != 0
    if dup && qos == .atMostOnce then .error .duplicateUnacknowledged
    else .ok ⟨dup, qos, byte &&& 0b0001 != 0⟩

def encode (flags : Flags) : UInt8 :=
  (flags.qos.code <<< 1) ||| (if flags.dup then 0b1000 else 0) ||| (if flags.retain then 1 else 0)

theorem decode_encode {flags : Flags} (allowed : flags.dup → flags.qos ≠ .atMostOnce) :
    decode flags.encode = .ok flags := by
  obtain ⟨dup, qos, retain⟩ := flags
  cases dup with
  | false => cases qos <;> cases retain <;> rfl
  | true =>
    cases qos with
    | atMostOnce => exact absurd rfl (allowed rfl)
    | atLeastOnce => cases retain <;> rfl
    | exactlyOnce => cases retain <;> rfl

end Flags

def flags (publish : Publish) : Flags := ⟨publish.dup, publish.qos, publish.retain⟩

end Publish
end Mqtt
