import Mqtt.ReasonCode

/-!
Violations of the protocol by a peer. Each kind has the reason code that the peer is told, and the
detail is sent along as the reason string.
-/
namespace Mqtt

inductive Violation.Kind
  | malformedPacket
  | protocolError
  | topicNameInvalid
  | topicAliasInvalid
  | payloadFormatInvalid
deriving DecidableEq, Repr

structure Violation where
  kind : Violation.Kind
  detail : String
deriving DecidableEq, Repr

namespace Violation

def Kind.reason : Kind → ReasonCode
  | malformedPacket => .malformedPacket
  | protocolError => .protocolError
  | topicNameInvalid => .topicNameInvalid
  | topicAliasInvalid => .topicAliasInvalid
  | payloadFormatInvalid => .payloadFormatInvalid

def Kind.label : Kind → String
  | malformedPacket => "malformed packet"
  | protocolError => "protocol error"
  | topicNameInvalid => "topic name invalid"
  | topicAliasInvalid => "topic alias invalid"
  | payloadFormatInvalid => "payload format invalid"

def reason (violation : Violation) : ReasonCode := violation.kind.reason

def message (violation : Violation) : String := violation.kind.label ++ ": " ++ violation.detail

def wrongQoS : Violation := ⟨.malformedPacket, "wrong QoS"⟩

/-- A packet that is never acknowledged is never sent again either. -/
def duplicateUnacknowledged : Violation := ⟨.protocolError, "DUP flag must be 0 if QoS is 0"⟩

def tooShort : Violation := ⟨.malformedPacket, "remaining length too short"⟩

def malformedTopic : Violation := ⟨.topicNameInvalid, "malformed topic"⟩

def malformedPropertyLength : Violation := ⟨.malformedPacket, "malformed property length"⟩

def malformedPropertyId : Violation := ⟨.malformedPacket, "malformed property identifier"⟩

def repeatedProperty : Violation := ⟨.protocolError, "property included more than once"⟩

def unexpectedProperty : Violation := ⟨.protocolError, "wrong property for PUBLISH"⟩

def malformedMessageExpiry : Violation := ⟨.malformedPacket, "malformed message expiry interval"⟩

def wrongPayloadFormat : Violation := ⟨.malformedPacket, "wrong payload format indicator"⟩

def malformedContentType : Violation := ⟨.malformedPacket, "malformed content type"⟩

def malformedResponseTopic : Violation := ⟨.topicNameInvalid, "malformed response topic"⟩

def malformedCorrelationData : Violation := ⟨.malformedPacket, "malformed correlation data"⟩

def malformedUserProperty : Violation := ⟨.malformedPacket, "malformed user property"⟩

def malformedTopicAlias : Violation := ⟨.malformedPacket, "malformed topic alias"⟩

def zeroTopicAlias : Violation := ⟨.topicAliasInvalid, "topic alias must not be 0"⟩

def malformedSubscriptionId : Violation := ⟨.malformedPacket, "malformed subscription identifier"⟩

def zeroSubscriptionId : Violation := ⟨.protocolError, "subscription identifier must not be 0"⟩

def missingTopicAlias : Violation :=
  ⟨.topicAliasInvalid, "topic alias must be present if topic name is zero length"⟩

def exceededTopicAlias : Violation :=
  ⟨.topicAliasInvalid, "topic alias must not exceed topic alias maximum"⟩

def unmappedTopicAlias : Violation := ⟨.topicAliasInvalid, "topic alias has no mapping"⟩

def payloadNotText : Violation := ⟨.payloadFormatInvalid, "payload is not valid UTF-8"⟩

end Violation
end Mqtt
