import Mqtt.Publish.Basic

/-!
Writing PUBLISH packets. Properties stand in their canonical order, and a topic whose alias the peer
knows already is written as an empty name.
-/
namespace Mqtt.Publish

namespace Properties

def encoding (properties : Properties) : Encoding :=
  if properties.size ≤ VarInt.maximum then
    .varInt properties.size ++ .concat (properties.toList.map Property.encoding)
  else .fail .invalidLength

end Properties

/-- The alias stands for the topic. -/
def topicOmitted (publish : Publish) : Bool :=
  publish.properties.topicAlias.isSome && !publish.isNewAlias

def topicEncoding (publish : Publish) : Encoding :=
  if publish.topicOmitted then .uint16 0 else .topic publish.topic

def packetIdEncoding (publish : Publish) : Encoding :=
  if publish.qos = .atMostOnce then .empty
  else
    match publish.packetId with
    | none => .fail .packetIdRequired
    | some packetId => .uint16 packetId

/-- Everything behind the fixed header. -/
def encoding (publish : Publish) : Encoding :=
  publish.topicEncoding ++ publish.packetIdEncoding ++ publish.properties.encoding ++
    .ofBytes (publish.payload.getD [])

/-- The size that the fixed header announces. -/
def size (publish : Publish) : Nat :=
  (if publish.topicOmitted then 2 else publish.topic.size) +
  (if publish.qos = .atMostOnce then 0 else 2) +
  VarInt.size publish.properties.size + publish.properties.size +
  (publish.payload.getD []).length

end Mqtt.Publish
