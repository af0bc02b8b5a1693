import Mqtt.Enumeration

/-!
Identifiers of the properties that packets carry in their property tables.
-/
namespace Mqtt

inductive PropertyId
  | payloadFormatIndicator
  | messageExpiryInterval
  | contentType
  | responseTopic
  | correlationData
  | subscriptionIdentifier
  | sessionExpiryInterval
  | assignedClientIdentifier
  | serverKeepAlive
  | authenticationMethod
  | authenticationData
  | requestProblemInformation
  | willDelayInterval
  | requestResponseInformation
  | responseInformation
  | serverReference
  | reasonString
  | receiveMaximum
  | topicAliasMaximum
  | topicAlias
  | maximumQoS
  | retainAvailable
  | userProperty
  | maximumPacketSize
  | wildcardSubscriptionAvailable
  | subscriptionIdentifierAvailable
  | sharedSubscriptionAvailable
deriving DecidableEq, Repr

namespace PropertyId

def all : List PropertyId :=
  [.payloadFormatIndicator, .messageExpiryInterval, .contentType, .responseTopic, .correlationData,
   .subscriptionIdentifier, .sessionExpiryInterval, .assignedClientIdentifier, .serverKeepAlive,
   .authenticationMethod, .authenticationData, .requestProblemInformation, .willDelayInterval,
   .requestResponseInformation, .responseInformation, .serverReference, .reasonString,
   .receiveMaximum, .topicAliasMaximum, .topicAlias, .maximumQoS, .retainAvailable, .userProperty,
   .maximumPacketSize, .wildcardSubscriptionAvailable, .subscriptionIdentifierAvailable,
   .sharedSubscriptionAvailable]

def code : PropertyId → UInt8
  | payloadFormatIndicator => 0x01
  | messageExpiryInterval => 0x02
  | contentType => 0x03
  | responseTopic => 0x08
  | correlationData => 0x09
  | subscriptionIdentifier => 0x0B
  | sessionExpiryInterval => 0x11
  | assignedClientIdentifier => 0x12
  | serverKeepAlive => 0x13
  | authenticationMethod => 0x15
  | authenticationData => 0x16
  | requestProblemInformation => 0x17
  | willDelayInterval => 0x18
  | requestResponseInformation => 0x19
  | responseInformation => 0x1A
  | serverReference => 0x1C
  | reasonString => 0x1F
  | receiveMaximum => 0x21
  | topicAliasMaximum => 0x22
  | topicAlias => 0x23
  | maximumQoS => 0x24
  | retainAvailable => 0x25
  | userProperty => 0x26
  | maximumPacketSize => 0x27
  | wildcardSubscriptionAvailable => 0x28
  | subscriptionIdentifierAvailable => 0x29
  | sharedSubscriptionAvailable => 0x2A

def name : PropertyId → String
  | payloadFormatIndicator => "PayloadFormatIndicator"
  | messageExpiryInterval => "MessageExpiryInterval"
  | contentType => "ContentType"
  | responseTopic => "ResponseTopic"
  | correlationData => "CorrelationData"
  | subscriptionIdentifier => "SubscriptionIdentifier"
  | sessionExpiryInterval => "SessionExpiryInterval"
  | assignedClientIdentifier => "AssignedClientIdentifier"
  | serverKeepAlive => "ServerKeepAlive"
  | authenticationMethod => "AuthenticationMethod"
  | authenticationData => "AuthenticationData"
  | requestProblemInformation => "RequestProblemInformation"
  | willDelayInterval => "WillDelayInterval"
  | requestResponseInformation => "RequestResponseInformation"
  | responseInformation => "ResponseInformation"
  | serverReference => "ServerReference"
  | reasonString => "ReasonString"
  | receiveMaximum => "ReceiveMaximum"
  | topicAliasMaximum => "TopicAliasMaximum"
  | topicAlias => "TopicAlias"
  | maximumQoS => "MaximumQoS"
  | retainAvailable => "RetainAvailable"
  | userProperty => "UserProperty"
  | maximumPacketSize => "MaximumPacketSize"
  | wildcardSubscriptionAvailable => "WildcardSubscriptionAvailable"
  | subscriptionIdentifierAvailable => "SubscriptionIdentifierAvailable"
  | sharedSubscriptionAvailable => "SharedSubscriptionAvailable"

/-- All other properties stand at most once in a table. -/
def mayRepeat (id : PropertyId) : Bool := id == .userProperty || id == .subscriptionIdentifier

/-- A table writes identifiers as variable byte integers; every known one fits into one byte. -/
def ofIdentifier? (number : Nat) : Option PropertyId := all.find? fun id => id.code.toNat == number

def ofCode? (byte : UInt8) : Option PropertyId := ofIdentifier? byte.toNat

theorem mem_all (id : PropertyId) : id ∈ all := by cases id <;> decide

theorem ofIdentifier?_eq_some_iff {number : Nat} {id : PropertyId} :
    ofIdentifier? number = some id ↔ id.code.toNat = number :=
  Enumeration.find?_eq_some_iff mem_all (by decide)

theorem ofIdentifier?_code (id : PropertyId) : ofIdentifier? id.code.toNat = some id :=
  ofIdentifier?_eq_some_iff.mpr rfl

theorem code_lt (id : PropertyId) : id.code < 128 := by cases id <;> decide

end PropertyId
end Mqtt
