import Mqtt.PropertySchema
import Mqtt.ReasonCode
import Mqtt.Wire.Field

/-!
DISCONNECT packets and their properties. The session expiry and the server reference are always
sent; the user properties and the reason string are diagnostics that may be left out.
-/
namespace Mqtt

structure Disconnect where
  reason : ReasonCode := .normalDisconnection
  /-- In seconds. -/
  sessionExpiry : Option UInt32 := none
  /-- Another server that the client may use. -/
  serverReference : Option String := none
  reasonString : Option String := none
  userProperties : List UserProperty := []
deriving DecidableEq, Repr

namespace Disconnect

def withReason (reason : ReasonCode) (text : String) : Disconnect :=
  { reason := reason, reasonString := some text }

inductive Property
  | sessionExpiry (seconds : UInt32)
  | serverReference (text : String)
  | reasonString (text : String)
  | user (property : UserProperty)
deriving DecidableEq, Repr

namespace Property

def id : Property → PropertyId
  | sessionExpiry _ => .sessionExpiryInterval
  | serverReference _ => .serverReference
  | reasonString _ => .reasonString
  | user _ => .userProperty

/-- The reader of the value behind an identifier. -/
def value? : PropertyId → Option (Reader WireError Property)
  | .sessionExpiryInterval => some (sessionExpiry <$> Reader.uint32)
  | .serverReference => some (serverReference <$> Reader.text)
  | .reasonString => some (reasonString <$> Reader.text)
  | .userProperty => some (user <$> Reader.userProperty)
  | _ => none

/-- The size of the value, without the identifier. -/
def valueSize : Property → Nat
  | sessionExpiry _ => 4
  | serverReference text => textSize text
  | reasonString text => textSize text
  | user property => property.size

def size (property : Property) : Nat := 1 + property.valueSize

def value : Property → Encoding
  | sessionExpiry seconds => .uint32 seconds
  | serverReference text => .text text
  | reasonString text => .text text
  | user property => .userProperty property

def encoding (property : Property) : Encoding := .uint8 property.id.code ++ property.value

end Property

def schema : PropertySchema WireError Property where
  faults := ⟨.malformedPacket, .invalidLength, .malformedPacket⟩
  unexpected := .malformedPacket
  repeated := .duplicateProperty
  id := Property.id
  value? := Property.value?

def ofProperties (reason : ReasonCode) (properties : List Property) : Disconnect where
  reason := reason
  sessionExpiry := properties.findSome? fun | .sessionExpiry seconds => some seconds | _ => none
  serverReference := properties.findSome? fun | .serverReference text => some text | _ => none
  reasonString := properties.findSome? fun | .reasonString text => some text | _ => none
  userProperties := properties.filterMap fun | .user property => some property | _ => none

/-- The properties that are never left out. -/
def fixedProperties (disconnect : Disconnect) : List Property :=
  (disconnect.sessionExpiry.map Property.sessionExpiry).toList ++
  (disconnect.serverReference.map Property.serverReference).toList

/-- The properties that may be left out. -/
def diagnostics (disconnect : Disconnect) : List Property :=
  disconnect.userProperties.map Property.user ++
  (disconnect.reasonString.map Property.reasonString).toList

/-- The order in which properties are written. -/
def properties (disconnect : Disconnect) : List Property :=
  disconnect.fixedProperties ++ disconnect.diagnostics

/-- Nothing of a packet is lost in its reason code and its list of properties. -/
theorem ofProperties_properties (disconnect : Disconnect) :
    ofProperties disconnect.reason disconnect.properties = disconnect := by
  simp only [ofProperties, properties, fixedProperties, diagnostics, List.findSome?_append,
    List.filterMap_append, List.findSome?_map, List.filterMap_map, Function.comp_def,
    Option.bind_map, PropertySchema.findSome?_toList, PropertySchema.filterMap_toList]
  simp [List.findSome?_eq_none_iff.mpr]

def sizeOf (properties : List Property) : Nat := totalSize Property.size properties

end Disconnect
end Mqtt
