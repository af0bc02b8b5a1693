import Mqtt.Publish.Basic
import Mqtt.TopicAlias.Resolution

/-!
Reading PUBLISH packets. The first violation in reading order is the answer: the flags, the variable
header, the topic alias and last the payload. An alias is registered before the payload is looked
at.
-/
namespace Mqtt.Publish

/-- The part of a packet between its fixed header and its payload. -/
structure Header where
  /-- Absent where an empty name leaves it to the alias. -/
  topic : Option Topic
  packetId : Option UInt16
  properties : Properties
deriving DecidableEq

/-- The length field of the topic name and the shortest length field of the properties. -/
def minimumLength : Nat := 3

def topicName (bytes : Bytes) : Option (Option Topic) :=
  if bytes.isEmpty then some none else (Topic.ofBytes bytes).toOption.map some

def topicReader : Reader Violation (Option Topic) :=
  (Reader.binary.mapError fun _ => .malformedTopic).mapSome .malformedTopic topicName

def packetIdReader (qos : QoS) : Reader Violation (Option UInt16) :=
  if qos = .atMostOnce then pure none
  else some <$> Reader.uint16.mapError fun _ => .tooShort

def Header.reader (qos : QoS) : Reader Violation Header := do
  let topic ← topicReader
  let packetId ← packetIdReader qos
  let properties ← schema.read
  return ⟨topic, packetId, Properties.ofList properties⟩

/-- A frame up to its payload, and the bytes of the payload. -/
def split (byte : UInt8) (frame : Bytes) : Except Violation (Flags × Header × Bytes) :=
  match Flags.decode byte with
  | .error violation => .error violation
  | .ok flags =>
    if frame.length < minimumLength then .error .tooShort
    else
      match (Header.reader flags.qos).run frame with
      | .error violation => .error violation
      | .ok (header, used) => .ok (flags, header, frame.drop used)

def payloadAllowed (policy : DecodePolicy) (format : Option PayloadFormat) (payload : Bytes) : Bool :=
  !policy.validatePayload || format != some .utf8 || decide (Utf8.Valid payload)

/-- Decodes the frame behind a fixed header whose first byte ends in `byte`. The context is the one
to go on with, also after a violation. -/
def decode (byte : UInt8) (frame : Bytes) (context : Context) : Except Violation Publish × Context :=
  match split byte frame with
  | .error violation => (.error violation, context)
  | .ok (flags, header, payload) =>
    match context.resolve header.topic header.properties.topicAlias with
    | .error violation => (.error violation, context)
    | .ok resolved =>
      if payloadAllowed context.policy header.properties.payloadFormat payload then
        (.ok {
          dup := flags.dup
          retain := flags.retain
          qos := flags.qos
          topic := resolved.topic
          packetId := header.packetId
          payload := if payload.isEmpty then none else some payload
          isNewAlias := resolved.isNew
          properties := header.properties }, resolved.context)
      else (.error .payloadNotText, resolved.context)

end Mqtt.Publish
