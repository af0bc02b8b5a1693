import Mathlib.Data.List.Basic
import Mqtt.Proofs.Framing
import Mqtt.Proofs.Publish.Writing

/-!
Writing back what was decoded. A frame may spell its integers longer than they need to be, and list
its properties in any order. The packet that it is decoded to is well-formed; what is written of the
packet is no longer than the frame, and is decoded to the same packet again. That another receiver
knows the same topic aliases is not covered.
-/
namespace Mqtt

namespace Publish

/-- A value that was read can be written. -/
theorem Property.sendable_of_form {property : Property} {encoded : Bytes}
    (form : property.ValueForm encoded) : property.Sendable := by
  cases property with
  | contentType text => exact TextForm.sendable form
  | correlationData data =>
    obtain ⟨short⟩ := form
    exact short
  | user property =>
    obtain ⟨name, value⟩ := form
    exact ⟨name.sendable, value.sendable⟩
  | subscription id => exact VarInt.Form.le_maximum form
  | payloadFormat | messageExpiry | topicAlias | responseTopic => trivial

/-- Only a subscription identifier may be spelled longer than its size. -/
theorem Property.valueSize_le {property : Property} {encoded : Bytes}
    (form : property.ValueForm encoded) : property.valueSize ≤ encoded.length := by
  cases property with
  | payloadFormat format =>
    cases form
    exact Nat.le_refl 1
  | messageExpiry seconds =>
    cases form
    rw [BigEndian.length_encode]
    exact Nat.le_refl 4
  | topicAlias name =>
    cases form
    rw [BigEndian.length_encode]
    exact Nat.le_refl 2
  | contentType text => exact Nat.le_of_eq (TextForm.length form).symm
  | responseTopic topic =>
    have length := BinaryForm.length form
    rw [binarySize, Utf8.length_encode] at length
    exact Nat.le_of_eq length.symm
  | correlationData data => exact Nat.le_of_eq (BinaryForm.length form).symm
  | user property => exact Nat.le_of_eq (UserProperty.Form.length form).symm
  | subscription id => exact VarInt.Form.size_le form

theorem Property.size_le {property : Property} {encoded : Bytes}
    (form : schema.EntryForm Property.ValueForm property encoded) :
    property.size ≤ encoded.length := by
  obtain ⟨named, valued⟩ := form
  rw [List.length_append]
  exact Nat.add_le_add named.length_pos (valueSize_le valued)

namespace Properties

/-- The kinds of properties, in the order in which they are written. -/
def order : List PropertyId :=
  [.payloadFormatIndicator, .messageExpiryInterval, .topicAlias, .contentType, .responseTopic,
    .correlationData, .userProperty, .subscriptionIdentifier]

/-- The properties of one kind. -/
def ofKind (properties : List Property) (kind : PropertyId) : List Property :=
  properties.filter fun property => property.id == kind

/-- The canonical order goes by kind, and keeps the order of what may be repeated. -/
theorem Collects.toList_eq {record : Properties} {properties : List Property}
    (collected : record.Collects properties) (unrepeated : schema.Unrepeated properties) :
    record.toList = order.flatMap (ofKind properties) := by
  have payloadFormat := PropertySchema.toList_eq_filter schema .payloadFormatIndicator unrepeated rfl
    (fun property => by cases property <;> simp [schema, Property.id]) collected.payloadFormat
  have messageExpiry := PropertySchema.toList_eq_filter schema .messageExpiryInterval unrepeated rfl
    (fun property => by cases property <;> simp [schema, Property.id]) collected.messageExpiry
  have topicAlias := PropertySchema.toList_eq_filter schema .topicAlias unrepeated rfl
    (fun property => by cases property <;> simp [schema, Property.id]) collected.topicAlias
  have contentType := PropertySchema.toList_eq_filter schema .contentType unrepeated rfl
    (fun property => by cases property <;> simp [schema, Property.id]) collected.contentType
  have responseTopic := PropertySchema.toList_eq_filter schema .responseTopic unrepeated rfl
    (fun property => by cases property <;> simp [schema, Property.id]) collected.responseTopic
  have correlationData := PropertySchema.toList_eq_filter schema .correlationData unrepeated rfl
    (fun property => by cases property <;> simp [schema, Property.id]) collected.correlationData
  rw [toList, payloadFormat, messageExpiry, topicAlias, contentType, responseTopic, correlationData,
    collected.userProperties, collected.subscriptionIds]
  simp only [order, List.flatMap_cons, List.flatMap_nil, List.append_assoc, List.append_nil]
  rfl

/-- The canonical order has the properties that were collected, each as often as it stood there. -/
theorem Collects.toList_perm {record : Properties} {properties : List Property}
    (collected : record.Collects properties) (unrepeated : schema.Unrepeated properties) :
    record.toList.Perm properties := by
  have known : ∀ property ∈ properties, property.id ∈ order := by
    intro property _
    cases property <;> simp [order, Property.id]
  rw [collected.toList_eq unrepeated]
  exact PropertySchema.flatMap_filter_perm schema (by decide) known

/-- The properties that a table was collected from have a table that is no longer. -/
theorem size_le_of_table {record : Properties} {properties : List Property} {encoded : Bytes}
    (listed : schema.TableForm Property.ValueForm properties encoded)
    (collected : record.Collects properties) :
    VarInt.size record.size + record.size ≤ encoded.length := by
  obtain ⟨declared, entries, unrepeated⟩ := listed
  rw [size, totalSize_eq_of_perm (collected.toList_perm unrepeated)]
  have content := entries.totalSize_le fun _ _ => Property.size_le
  have length := Nat.le_trans (VarInt.size_mono content) declared.size_le
  rw [List.length_append]
  exact Nat.add_le_add length content

end Properties

theorem TopicForm.length {topic : Option Topic} {encoded : Bytes} (form : TopicForm topic encoded) :
    encoded.length = topic.elim 2 Topic.size := by
  cases form with
  | omitted => exact BigEndian.length_encode 2 0
  | name form =>
    rw [BinaryForm.length form, binarySize, Utf8.length_encode]
    rfl

theorem PacketIdForm.isSome_iff {qos : QoS} {packetId : Option UInt16} {encoded : Bytes}
    (form : PacketIdForm qos packetId encoded) : packetId.isSome ↔ qos ≠ .atMostOnce := by
  cases form with
  | absent => simp
  | present acknowledged => simp [acknowledged]

theorem PayloadForm.getD {payload : Option Bytes} {rest : Bytes} (form : PayloadForm payload rest) :
    payload.getD [] = rest := by
  cases form <;> rfl

theorem PayloadForm.nonempty {payload : Option Bytes} {rest : Bytes}
    (form : PayloadForm payload rest) : payload ≠ some [] := by
  cases form with
  | absent => nofun
  | present nonempty => exact fun same => nonempty (Option.some.inj same)

/-- Whatever stands in a table can be written. -/
theorem sendable_of_table {properties : List Property} {encoded : Bytes}
    (listed : schema.TableForm Property.ValueForm properties encoded) :
    ∀ property ∈ properties, property.Sendable := by
  intro property member
  obtain ⟨-, entries, -⟩ := listed
  obtain ⟨bytes, form⟩ := entries.exists_form property member
  obtain ⟨-, valued⟩ := form
  exact Property.sendable_of_form valued

/-- The four bits that are read are those that are written. -/
theorem Flags.Form.encode {flags : Flags} {byte : UInt8} (form : flags.Form byte) :
    flags.encode = byte &&& 0x0F := by
  have table : ∀ number : Fin 256, ((decode (UInt8.ofNat number)).toOption.all fun found =>
      found.encode == UInt8.ofNat number &&& 0x0F) = true := by
    decide +kernel
  have same := table ⟨byte.toNat, byte.toNat_lt⟩
  rw [UInt8.ofNat_toNat, Flags.decode_eq_ok_iff.mpr form] at same
  exact beq_iff_eq.mp same

/-- The topic field is sent again as it was received. -/
theorem sentTopic_of_resolves {context after : Context} {publish : Publish} {topic : Option Topic}
    (resolves : context.Resolves topic publish.properties.topicAlias
      ⟨publish.topic, publish.isNewAlias, after⟩) : publish.sentTopic = topic := by
  generalize named : publish.properties.topicAlias = name at resolves
  generalize fresh : publish.isNewAlias = isNew at resolves
  cases resolves with
  | named => simp [sentTopic, topicOmitted, named]
  | registered inside => simp [sentTopic, topicOmitted, fresh]
  | known inside filled => simp [sentTopic, topicOmitted, named, fresh]

namespace Denotes

variable {byte : UInt8} {context after : Context} {frame : Bytes} {publish : Publish}

theorem flagged (denotes : Denotes byte context frame publish after) : publish.flags.Form byte := by
  obtain ⟨flagged, headed, resolves, carried, textual⟩ := denotes
  exact flagged

/-- The frame has the fields that are sent of the packet. -/
theorem headed (denotes : Denotes byte context frame publish after) :
    ∃ head, frame = head ++ publish.payload.getD [] ∧
      Header.Form publish.qos ⟨publish.sentTopic, publish.packetId, publish.properties⟩ head := by
  obtain ⟨flagged, headed, resolves, carried, textual⟩ := denotes
  refine ⟨_, congrArg _ carried.getD.symm, ?_⟩
  rw [sentTopic_of_resolves resolves]
  exact headed

/-- The alias and the topic field resolve as they did when they were received. -/
theorem resolves_sent (denotes : Denotes byte context frame publish after) :
    context.Resolves publish.sentTopic publish.properties.topicAlias
      ⟨publish.topic, publish.isNewAlias, after⟩ := by
  obtain ⟨topic, resolves⟩ := denotes.resolves
  rwa [sentTopic_of_resolves resolves]

theorem textual (denotes : Denotes byte context frame publish after)
    (checked : context.policy.validatePayload)
    (declared : publish.properties.payloadFormat = some .utf8) :
    Utf8.Valid (publish.payload.getD []) := by
  obtain ⟨flagged, headed, resolves, carried, textual⟩ := denotes
  rw [carried.getD]
  exact textual checked declared

theorem payload (denotes : Denotes byte context frame publish after) : publish.payload ≠ some [] := by
  obtain ⟨flagged, headed, resolves, carried, textual⟩ := denotes
  exact carried.nonempty

/-- No field is written longer than it was received. -/
theorem size_le (denotes : Denotes byte context frame publish after) :
    publish.size ≤ frame.length := by
  obtain ⟨head, rfl, named, identified, listed, collected⟩ := denotes.headed
  have topic : (if publish.topicOmitted then 2 else publish.topic.size) =
      publish.sentTopic.elim 2 Topic.size := by
    unfold sentTopic
    split <;> rfl
  have table := Properties.size_le_of_table listed collected
  simp only [List.length_append, named.length, identified.length, Publish.size, topic]
  omega

theorem wellFormed (denotes : Denotes byte context frame publish after)
    (short : frame.length ≤ VarInt.maximum) : publish.WellFormed := by
  obtain ⟨head, -, named, identified, listed, collected⟩ := denotes.headed
  have sendable := sendable_of_table listed
  exact {
    unacknowledged := by
      intro level
      refine ⟨?_, ?_⟩
      · cases again : publish.dup with
        | false => rfl
        | true => exact absurd level (denotes.flagged.allowed again)
      · rw [← Option.not_isSome_iff_eq_none, identified.isSome_iff]
        exact not_not_intro level
    acknowledged := identified.isSome_iff.mpr
    payload := denotes.payload
    contentType := fun text found => sendable _ ((collected.contentType text).mp found)
    correlationData := fun data found => sendable _ ((collected.correlationData data).mp found)
    userProperties := by
      intro property member
      have listed := List.mem_map_of_mem (f := Property.user) member
      rw [collected.userProperties] at listed
      exact sendable _ (List.mem_filter.mp listed).1
    subscriptionIds := by
      intro id member
      have listed := List.mem_map_of_mem (f := Property.subscription) member
      rw [collected.subscriptionIds] at listed
      exact sendable _ (List.mem_filter.mp listed).1
    newAlias := by
      intro fresh
      obtain ⟨topic, resolves⟩ := denotes.resolves
      rw [fresh] at resolves
      cases named : publish.properties.topicAlias with
      | none =>
        rw [named] at resolves
        cases resolves
      | some name => rfl
    size := Nat.le_trans denotes.size_le short }

end Denotes

/-- What was decoded is written as a frame that is no longer than the one it was decoded from, and
that is decoded to the same packet by whoever decoded the first one, and changes nothing more. -/
theorem decode_encode_of_decode {byte : UInt8} {context after : Context} {frame : Bytes}
    {publish : Publish} (decoded : decode byte frame context = (.ok publish, after))
    (short : frame.length ≤ VarInt.maximum) :
    ∃ (canonical : Frame) (encoded : Bytes),
      Codec.encode {} (.publish publish) [] = (.ok (), encoded) ∧ canonical.Form encoded ∧
      canonical.header.firstByte = 0x30 ||| (byte &&& 0x0F) ∧
      canonical.header.remainingLength ≤ frame.length ∧
      decode byte canonical.body after = (.ok publish, after) := by
  have denotes := denotes_of_decode decoded
  have wellFormed := denotes.wellFormed short
  have resolves := denotes.resolves_sent
  have content := wellFormed.encoding_writes denotes.flagged resolves.again fun checked =>
    denotes.textual (resolves.policy ▸ checked)
  obtain ⟨canonical, encoded, written, form, firstByte, again, size⟩ :=
    Codec.encode_frame {} (.publish publish) wellFormed.size wellFormed.size content.withLength
  refine ⟨canonical, encoded, written [], form, ?_, ?_, again.decode⟩
  · rw [firstByte, Packet.firstByte, denotes.flagged.encode]
    rfl
  · rw [form.remainingLength, size]
    exact denotes.size_le

/-- Integers in more bytes than they need, and properties in an order of their own. -/
def scattered : Bytes :=
  [0, 1, 0x62, 0, 7, 0x95, 0, 0x0B, 0x81, 0, 0x26, 0, 1, 0x6B, 0, 1, 0x76, 0xA3, 0, 0, 2, 0x8B, 0, 2,
    0x81, 0x80, 0, 1, 0x6F, 0x6E]

def gathered : Publish where
  dup := true
  retain := true
  qos := .exactlyOnce
  topic := ⟨"b", by decide, by decide, by simp⟩
  packetId := some 7
  payload := some [0x6F, 0x6E]
  isNewAlias := true
  properties := {
    payloadFormat := some .utf8
    topicAlias := some ⟨2, by decide⟩
    userProperties := [⟨"k", "v"⟩]
    subscriptionIds := [⟨1, by decide⟩, ⟨2, by decide⟩] }

theorem decode_encode_scattered :
    ∃ after, decode 0x3D scattered (.ofConfig { topicAliasMaximum := 2, validatePayload := true }) =
        (.ok gathered, after) ∧
      ∃ (canonical : Frame) (encoded : Bytes),
        Codec.encode {} (.publish gathered) [] = (.ok (), encoded) ∧ canonical.Form encoded ∧
        canonical.header.firstByte = 0x3D ∧ canonical.header.remainingLength ≤ 30 ∧
        decode 0x3D canonical.body after = (.ok gathered, after) := by
  have decoded :
      decode 0x3D scattered (.ofConfig { topicAliasMaximum := 2, validatePayload := true }) =
        (.ok gathered, ⟨some ⟨#[none, some gathered.topic]⟩, { validatePayload := true }⟩) := by
    decide +kernel
  exact ⟨_, decoded, decode_encode_of_decode decoded (by decide)⟩

end Publish
end Mqtt
