import Mqtt.Proofs.Publish.Grammar
import Mqtt.Proofs.Wire.Writing
import Mqtt.Publish.Encode

/-!
What is written of a PUBLISH. The content of a well-formed packet is a frame of the grammar, of the
size that the fixed header announces, and denotes the packet wherever its topic resolves. Of a packet
that cannot be written there is less.
-/
namespace Mqtt.Publish

/-- The values of the property fit into their fields. -/
def Property.Sendable : Property → Prop
  | contentType text => SendableText text
  | correlationData data => data.length ≤ maximumFieldLength
  | user property => SendableText property.name ∧ SendableText property.value
  | subscription id => id.value ≤ VarInt.maximum
  | _ => True

theorem Property.value_writes {property : Property} (sendable : property.Sendable) :
    property.value.Writes property.ValueForm property.valueSize := by
  cases property with
  | payloadFormat format => exact Encoding.uint8_writes format.code
  | messageExpiry seconds => exact Encoding.uint32_writes seconds
  | topicAlias name => exact Encoding.uint16_writes name.value
  | contentType text => exact Encoding.text_writes sendable
  | responseTopic topic => exact Encoding.topic_writes topic
  | correlationData data => exact Encoding.binary_writes sendable
  | user property => exact Encoding.userProperty_writes sendable.1 sendable.2
  | subscription id => exact Encoding.varInt_writes sendable

theorem Property.encoding_writes {property : Property} (sendable : property.Sendable) :
    property.encoding.Writes (schema.EntryForm Property.ValueForm property) property.size := by
  have opened : property.encoding = .uint8 property.id.code ++ property.value := by
    cases property with
    | subscription id => exact if_pos sendable
    | _ => rfl
  rw [opened]
  exact schema.entry_writes (value_writes sendable)

theorem Property.encoding_ends (property : Property) :
    property.encoding.Ends property.size := by
  have code := (Encoding.uint8_writes property.id.code).ends
  cases property with
  | payloadFormat format => exact code.append (Encoding.uint8_writes format.code).ends
  | messageExpiry seconds => exact code.append (Encoding.uint32_writes seconds).ends
  | topicAlias name => exact code.append (Encoding.uint16_writes name.value).ends
  | contentType text => exact code.append (Encoding.text_ends text)
  | responseTopic topic => exact code.append (Encoding.topic_writes topic).ends
  | correlationData data => exact code.append (Encoding.binary_ends data)
  | user property => exact code.append (Encoding.userProperty_ends property)
  | subscription id =>
    unfold encoding
    dsimp only
    split
    · rename_i fits
      exact code.append (Encoding.varInt_writes fits).ends
    · exact .fail .invalidLength (Nat.add_pos_left Nat.one_pos _)

namespace Properties

theorem encoding_ends (properties : Properties) :
    properties.encoding.Ends (VarInt.size properties.size + properties.size) := by
  unfold encoding
  split
  · rename_i fits
    exact (Encoding.varInt_writes fits).ends.append
      (Encoding.Ends.concat _ Property.encoding_ends)
  · exact .fail .invalidLength (Nat.add_pos_left (VarInt.size_pos _) _)

/-- The record holds the property in the field for its kind. -/
def Holds (record : Properties) : Property → Prop
  | .payloadFormat format => record.payloadFormat = some format
  | .messageExpiry seconds => record.messageExpiry = some seconds
  | .topicAlias name => record.topicAlias = some name
  | .contentType text => record.contentType = some text
  | .responseTopic topic => record.responseTopic = some topic
  | .correlationData data => record.correlationData = some data
  | .user property => property ∈ record.userProperties
  | .subscription id => id ∈ record.subscriptionIds

theorem mem_toList_iff {record : Properties} {property : Property} :
    property ∈ record.toList ↔ record.Holds property := by
  cases property <;> simp [toList, Holds]

/-- Of the groups that the list is made of, no two have properties of one kind. -/
theorem unrepeated_toList (properties : Properties) : schema.Unrepeated properties.toList := by
  have users : (properties.userProperties.map Property.user).Pairwise schema.Compatible :=
    PropertySchema.pairwise_map (fun _ => rfl) properties.userProperties
  have subscriptions :
      (properties.subscriptionIds.map Property.subscription).Pairwise schema.Compatible :=
    PropertySchema.pairwise_map (fun _ => rfl) properties.subscriptionIds
  unfold PropertySchema.Unrepeated toList
  simp only [List.pairwise_append, schema.pairwise_option, users, subscriptions, List.mem_append,
    Option.mem_toList, Option.map_eq_some_iff, List.mem_map]
  simp [or_imp, forall_and, PropertySchema.Compatible, schema, Property.id, PropertyId.mayRepeat]

theorem collects_toList (properties : Properties) : properties.Collects properties.toList :=
  (collects_iff (unrepeated_toList properties)).mpr (ofList_toList properties).symm

theorem encoding_writes {properties : Properties} (fits : properties.size ≤ VarInt.maximum)
    (sendable : ∀ property ∈ properties.toList, property.Sendable) :
    properties.encoding.Writes (schema.TableForm Property.ValueForm properties.toList)
      (VarInt.size properties.size + properties.size) := by
  rw [encoding, if_pos fits]
  exact PropertySchema.table_writes fits (unrepeated_toList properties) fun property member =>
    Property.encoding_writes (sendable property member)

end Properties

/-- The topic field: where the alias stands for the topic, its name is left out. -/
def sentTopic (publish : Publish) : Option Topic :=
  if publish.topicOmitted then none else some publish.topic

/-- What a sender has to keep to so that every field of the packet can be written, and nothing is
lost of it. -/
structure WellFormed (publish : Publish) : Prop where
  unacknowledged : publish.qos = .atMostOnce → publish.dup = false ∧ publish.packetId = none
  acknowledged : publish.qos ≠ .atMostOnce → publish.packetId.isSome
  payload : publish.payload ≠ some []
  contentType : ∀ text, publish.properties.contentType = some text → SendableText text
  correlationData : ∀ data, publish.properties.correlationData = some data →
    data.length ≤ maximumFieldLength
  userProperties : ∀ property ∈ publish.properties.userProperties,
    SendableText property.name ∧ SendableText property.value
  subscriptionIds : ∀ id ∈ publish.properties.subscriptionIds, id.value ≤ VarInt.maximum
  newAlias : publish.isNewAlias → publish.properties.topicAlias.isSome
  size : publish.size ≤ VarInt.maximum

theorem topicEncoding_writes (publish : Publish) :
    publish.topicEncoding.Writes (TopicForm publish.sentTopic)
      (if publish.topicOmitted then 2 else publish.topic.size) := by
  unfold topicEncoding sentTopic
  split
  · exact (Encoding.uint16_writes 0).imp fun bytes same => same ▸ .omitted
  · exact (Encoding.topic_writes publish.topic).imp fun _ form => .name form

theorem packetIdEncoding_ends (publish : Publish) :
    publish.packetIdEncoding.Ends (if publish.qos = .atMostOnce then 0 else 2) := by
  unfold packetIdEncoding
  split
  · exact .ofBytes []
  · cases publish.packetId with
    | none => exact .fail .packetIdRequired (by decide)
    | some number => exact (Encoding.uint16_writes number).ends

/-- What is written has the size that was announced, also of a packet that is not well-formed, unless
it stops before that. -/
theorem encoding_ends (publish : Publish) : publish.encoding.Ends publish.size := by
  have header := (topicEncoding_writes publish).ends.append (packetIdEncoding_ends publish)
  have fields := header.append (Properties.encoding_ends publish.properties)
  rw [← Nat.add_assoc] at fields
  exact fields.append (.ofBytes _)

namespace WellFormed

variable {publish : Publish}

theorem sendable (wellFormed : publish.WellFormed) :
    ∀ property ∈ publish.properties.toList, property.Sendable := by
  intro property member
  have held := Properties.mem_toList_iff.mp member
  cases property with
  | contentType text => exact wellFormed.contentType text held
  | correlationData data => exact wellFormed.correlationData data held
  | user property => exact wellFormed.userProperties property held
  | subscription id => exact wellFormed.subscriptionIds id held
  | _ => trivial

theorem flags_form (wellFormed : publish.WellFormed) : publish.flags.Form publish.flags.encode := by
  apply Flags.decode_eq_ok_iff.mp
  apply Flags.decode_encode
  intro again unacknowledged
  have first := (wellFormed.unacknowledged unacknowledged).1
  cases again.symm.trans first

theorem packetIdEncoding_writes (wellFormed : publish.WellFormed) :
    publish.packetIdEncoding.Writes (PacketIdForm publish.qos publish.packetId)
      (if publish.qos = .atMostOnce then 0 else 2) := by
  unfold packetIdEncoding
  split
  · rename_i level
    rw [level, (wellFormed.unacknowledged level).2]
    exact ⟨rfl, .absent, rfl⟩
  · rename_i level
    obtain ⟨number, found⟩ := Option.isSome_iff_exists.mp (wellFormed.acknowledged level)
    rw [found]
    exact (Encoding.uint16_writes number).imp fun bytes same => same ▸ .present level

theorem payload_form (wellFormed : publish.WellFormed) :
    PayloadForm publish.payload (publish.payload.getD []) := by
  have nonempty := wellFormed.payload
  cases found : publish.payload with
  | none => exact .absent
  | some content =>
    rw [found] at nonempty
    exact .present fun empty => nonempty (congrArg some empty)

/-- The content of a packet is a frame that denotes the packet. -/
theorem encoding_writes (wellFormed : publish.WellFormed) {byte : UInt8} {context after : Context}
    (flagged : publish.flags.Form byte)
    (resolves : context.Resolves publish.sentTopic publish.properties.topicAlias
      ⟨publish.topic, publish.isNewAlias, after⟩)
    (textual : context.policy.validatePayload → publish.properties.payloadFormat = some .utf8 →
      Utf8.Valid (publish.payload.getD [])) :
    publish.encoding.Writes (fun frame => Denotes byte context frame publish after)
      publish.size := by
  have bound := wellFormed.size
  have fits : publish.properties.size ≤ VarInt.maximum := by
    unfold Publish.size at bound
    omega
  have header := (topicEncoding_writes publish).append wellFormed.packetIdEncoding_writes
  have properties := Properties.encoding_writes fits wellFormed.sendable
  have payload : (Encoding.ofBytes (publish.payload.getD [])).Writes
      (· = publish.payload.getD []) (publish.payload.getD []).length := ⟨rfl, rfl, rfl⟩
  have written := (header.append properties).append payload
  rw [← Nat.add_assoc] at written
  apply written.imp
  intro bytes found
  obtain ⟨head, _, rfl, ⟨named, table, rfl, ⟨topicBytes, idBytes, rfl, topicForm, idForm⟩, listed⟩,
    rfl⟩ := found
  exact .packet flagged (.fields topicForm idForm listed
    (Properties.collects_toList publish.properties)) resolves wellFormed.payload_form textual

end WellFormed
end Mqtt.Publish
