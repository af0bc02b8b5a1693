import Mqtt.Proofs.PropertyTable
import Mqtt.Proofs.Wire.Writing
import Mqtt.Publish.Decode

/-!
The violations that a PUBLISH can be refused with. There are finitely many, and the detail of each
can be sent to the peer. Which frame is refused with which of them is not covered.
-/
namespace Mqtt

namespace Violation

def all : List Violation :=
  [wrongQoS, duplicateUnacknowledged, tooShort, malformedTopic, malformedPropertyLength,
   malformedPropertyId, repeatedProperty, unexpectedProperty, malformedMessageExpiry,
   wrongPayloadFormat, malformedContentType, malformedResponseTopic, malformedCorrelationData,
   malformedUserProperty, malformedTopicAlias, zeroTopicAlias, malformedSubscriptionId,
   zeroSubscriptionId, missingTopicAlias, exceededTopicAlias, unmappedTopicAlias, payloadNotText]

/-- All but the last are found in front of the payload. -/
def beforePayload : List Violation := all.dropLast

theorem mem_all_of_beforePayload {violation : Violation} (member : violation ∈ beforePayload) :
    violation ∈ all := (List.dropLast_sublist all).subset member

theorem kind_of_beforePayload {violation : Violation} (member : violation ∈ beforePayload) :
    violation.kind ≠ .payloadFormatInvalid := by
  have apart : ∀ other ∈ beforePayload, other.kind ≠ .payloadFormatInvalid := by decide +kernel
  exact apart violation member

theorem ne_payloadNotText_of_beforePayload {violation : Violation}
    (member : violation ∈ beforePayload) : violation ≠ payloadNotText :=
  fun same => kind_of_beforePayload member (congrArg kind same)

theorem short_of_mem_all {violation : Violation} (member : violation ∈ all) :
    violation.detail.utf8ByteSize < 125 := by
  have short : ∀ other ∈ all, other.detail.utf8ByteSize < 125 := by decide +kernel
  exact short violation member

theorem sendable_of_mem_all {violation : Violation} (member : violation ∈ all) :
    SendableText violation.detail := by
  have plain : ∀ other ∈ all, '\x00' ∉ other.detail.toList := by decide +kernel
  have short := short_of_mem_all member
  refine ⟨plain violation member, ?_⟩
  unfold maximumFieldLength
  omega

end Violation

namespace Publish

theorem schema_reports : schema.Reports (· ∈ Violation.beforePayload) where
  malformedLength := by simp [schema, Violation.beforePayload, Violation.all]
  tooShort := by simp [schema, Violation.beforePayload, Violation.all]
  malformedId := by simp [schema, Violation.beforePayload, Violation.all]
  unexpected := by simp [schema, Violation.beforePayload, Violation.all]
  repeated := by simp [schema, Violation.beforePayload, Violation.all]
  value {id reader} found := by
    cases id <;> cases found
    case messageExpiryInterval | contentType | correlationData | userProperty =>
      exact (Reader.FailsWithin.mapError (by simp [Violation.beforePayload, Violation.all]) _).map _
    case payloadFormatIndicator | topicAlias | responseTopic | subscriptionIdentifier =>
      exact ((Reader.FailsWithin.mapError (by simp [Violation.beforePayload, Violation.all]) _).mapSome
        (by simp [Violation.beforePayload, Violation.all]) _).map _

theorem Header.reader_failsWithin (qos : QoS) :
    (reader qos).FailsWithin (· ∈ Violation.beforePayload) := by
  have topic : topicReader.FailsWithin (· ∈ Violation.beforePayload) :=
    (Reader.FailsWithin.mapError (by simp [Violation.beforePayload, Violation.all]) _).mapSome
      (by simp [Violation.beforePayload, Violation.all]) _
  have packetId : (packetIdReader qos).FailsWithin (· ∈ Violation.beforePayload) := by
    unfold packetIdReader
    split
    · exact .pure none
    · exact (Reader.FailsWithin.mapError (by simp [Violation.beforePayload, Violation.all]) _).map _
  exact topic.bind fun _ => packetId.bind fun _ =>
    (PropertySchema.read_failsWithin schema_reports).bind fun _ => .pure _

private theorem beforePayload_of_flags {byte : UInt8} {violation : Violation}
    (refused : Flags.decode byte = .error violation) : violation ∈ Violation.beforePayload := by
  unfold Flags.decode at refused
  split at refused
  · cases refused
    simp [Violation.beforePayload, Violation.all]
  · dsimp only at refused
    split at refused
    · cases refused
      simp [Violation.beforePayload, Violation.all]
    · cases refused

theorem beforePayload_of_split {byte : UInt8} {frame : Bytes} {violation : Violation}
    (refused : split byte frame = .error violation) : violation ∈ Violation.beforePayload := by
  unfold split at refused
  split at refused
  · rename_i fault decoded
    cases refused
    exact beforePayload_of_flags decoded
  · split at refused
    · cases refused
      simp [Violation.beforePayload, Violation.all]
    · split at refused
      · rename_i fault failed
        cases refused
        exact Header.reader_failsWithin _ _ _ failed
      · cases refused

theorem beforePayload_of_resolve {context : Context} {topic : Option Topic}
    {name : Option TopicAlias} {violation : Violation}
    (refused : context.resolve topic name = .error violation) :
    violation ∈ Violation.beforePayload := by
  unfold Context.resolve at refused
  repeat' split at refused
  all_goals cases refused
  all_goals simp [Violation.beforePayload, Violation.all]

/-- A PUBLISH is refused with a violation of the list. -/
theorem mem_all_of_decode {byte : UInt8} {frame : Bytes} {context after : Context}
    {violation : Violation} (refused : decode byte frame context = (.error violation, after)) :
    violation ∈ Violation.all := by
  unfold decode at refused
  split at refused
  · rename_i fault failed
    cases refused
    exact Violation.mem_all_of_beforePayload (beforePayload_of_split failed)
  · split at refused
    · rename_i fault failed
      cases refused
      exact Violation.mem_all_of_beforePayload (beforePayload_of_resolve failed)
    · split at refused
      · cases refused
      · cases refused
        simp [Violation.all]

end Publish
end Mqtt
