import Mqtt.PayloadFormat
import Mqtt.PropertySchema
import Mqtt.Topic
import Mqtt.TopicAlias
import Mqtt.Violation

/-!
The properties of PUBLISH: one at a time as they stand in a table, and together as a record. The
record has one canonical order of its properties; reading a table forgets the order of different
properties and keeps that of repeated ones.
-/
namespace Mqtt

/-- Numbers a subscription of the receiver. -/
structure SubscriptionId where
  value : Nat
  positive : 0 < value
deriving DecidableEq

def SubscriptionId.ofValue? (value : Nat) : Option SubscriptionId :=
  if positive : 0 < value then some ⟨value, positive⟩ else none

@[simp] theorem SubscriptionId.ofValue?_value (id : SubscriptionId) :
    ofValue? id.value = some id := by
  simp [ofValue?, id.positive]

namespace Publish

inductive Property
  | payloadFormat (format : PayloadFormat)
  | messageExpiry (seconds : UInt32)
  | topicAlias (name : TopicAlias)
  | contentType (text : String)
  | responseTopic (topic : Topic)
  | correlationData (data : Bytes)
  | user (property : UserProperty)
  | subscription (id : SubscriptionId)
deriving DecidableEq

namespace Property

def id : Property → PropertyId
  | payloadFormat _ => .payloadFormatIndicator
  | messageExpiry _ => .messageExpiryInterval
  | topicAlias _ => .topicAlias
  | contentType _ => .contentType
  | responseTopic _ => .responseTopic
  | correlationData _ => .correlationData
  | user _ => .userProperty
  | subscription _ => .subscriptionIdentifier

/-- The reader of the value behind an identifier. -/
def value? : PropertyId → Option (Reader Violation Property)
  | .payloadFormatIndicator =>
    some (payloadFormat <$>
      (Reader.uint8.mapError fun _ => .wrongPayloadFormat).mapSome .wrongPayloadFormat
        PayloadFormat.ofCode?)
  | .messageExpiryInterval =>
    some (messageExpiry <$> Reader.uint32.mapError fun _ => .malformedMessageExpiry)
  | .topicAlias =>
    some (topicAlias <$>
      (Reader.uint16.mapError fun _ => .malformedTopicAlias).mapSome .zeroTopicAlias
        TopicAlias.ofValue?)
  | .contentType => some (contentType <$> Reader.text.mapError fun _ => .malformedContentType)
  | .responseTopic =>
    some (responseTopic <$>
      (Reader.binary.mapError fun _ => .malformedResponseTopic).mapSome .malformedResponseTopic
        fun bytes => (Topic.ofBytes bytes).toOption)
  | .correlationData =>
    some (correlationData <$> Reader.binary.mapError fun _ => .malformedCorrelationData)
  | .userProperty =>
    some (user <$> Reader.userProperty.mapError fun _ => .malformedUserProperty)
  | .subscriptionIdentifier =>
    some (subscription <$>
      (VarInt.reader.mapError fun _ => .malformedSubscriptionId).mapSome .zeroSubscriptionId
        SubscriptionId.ofValue?)
  | _ => none

/-- The size of the value, without the identifier. -/
def valueSize : Property → Nat
  | payloadFormat _ => 1
  | messageExpiry _ => 4
  | topicAlias _ => 2
  | contentType text => textSize text
  | responseTopic topic => topic.size
  | correlationData data => binarySize data
  | user property => property.size
  | subscription id => VarInt.size id.value

def size (property : Property) : Nat := 1 + property.valueSize

def value : Property → Encoding
  | payloadFormat format => .uint8 format.code
  | messageExpiry seconds => .uint32 seconds
  | topicAlias name => .uint16 name.value
  | contentType text => .text text
  | responseTopic topic => .topic topic
  | correlationData data => .binary data
  | user property => .userProperty property
  | subscription id => .varInt id.value

/-- Subscription identifiers are checked before anything of them is written. -/
def encoding (property : Property) : Encoding :=
  match property with
  | subscription id =>
    if id.value ≤ VarInt.maximum then .uint8 property.id.code ++ property.value
    else .fail .invalidLength
  | _ => .uint8 property.id.code ++ property.value

end Property

structure Properties where
  payloadFormat : Option PayloadFormat := none
  /-- Without an interval the message does not expire. -/
  messageExpiry : Option UInt32 := none
  topicAlias : Option TopicAlias := none
  contentType : Option String := none
  responseTopic : Option Topic := none
  correlationData : Option Bytes := none
  userProperties : List UserProperty := []
  /-- A message has an identifier for each subscription that it matches. -/
  subscriptionIds : List SubscriptionId := []
deriving DecidableEq

namespace Properties

def ofList (properties : List Property) : Properties where
  payloadFormat := properties.findSome? fun | .payloadFormat format => some format | _ => none
  messageExpiry := properties.findSome? fun | .messageExpiry seconds => some seconds | _ => none
  topicAlias := properties.findSome? fun | .topicAlias name => some name | _ => none
  contentType := properties.findSome? fun | .contentType text => some text | _ => none
  responseTopic := properties.findSome? fun | .responseTopic topic => some topic | _ => none
  correlationData := properties.findSome? fun | .correlationData data => some data | _ => none
  userProperties := properties.filterMap fun | .user property => some property | _ => none
  subscriptionIds := properties.filterMap fun | .subscription id => some id | _ => none

/-- The order in which properties are written. -/
def toList (properties : Properties) : List Property :=
  (properties.payloadFormat.map Property.payloadFormat).toList ++
  (properties.messageExpiry.map Property.messageExpiry).toList ++
  (properties.topicAlias.map Property.topicAlias).toList ++
  (properties.contentType.map Property.contentType).toList ++
  (properties.responseTopic.map Property.responseTopic).toList ++
  (properties.correlationData.map Property.correlationData).toList ++
  properties.userProperties.map Property.user ++
  properties.subscriptionIds.map Property.subscription

def size (properties : Properties) : Nat := totalSize Property.size properties.toList

/-- Nothing of a record is lost in its list of properties. -/
theorem ofList_toList (properties : Properties) : ofList properties.toList = properties := by
  simp only [ofList, toList, List.findSome?_append, List.filterMap_append, List.findSome?_map,
    List.filterMap_map, Function.comp_def, Option.bind_map, PropertySchema.findSome?_toList,
    PropertySchema.filterMap_toList]
  simp [List.findSome?_eq_none_iff.mpr, List.filterMap_eq_nil_iff.mpr]

end Properties

def schema : PropertySchema Violation Property where
  faults := ⟨.malformedPropertyLength, .tooShort, .malformedPropertyId⟩
  unexpected := .unexpectedProperty
  repeated := .repeatedProperty
  id := Property.id
  value? := Property.value?

end Publish
end Mqtt
