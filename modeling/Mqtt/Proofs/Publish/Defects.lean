import Mqtt.Proofs.Publish.Grammar
import Mqtt.Proofs.PropertyTable.Refusal

/-!
The first defect among the properties of a PUBLISH. Behind well-formed properties, a defective one is
what the packet is refused with, whatever follows it and whatever the context holds. A property of
which not all bytes are there is not covered.
-/
namespace Mqtt.Publish

/-- Flags, a topic field and a packet identifier that are accepted. -/
inductive Opening (byte : UInt8) : Bytes → Prop
  | fields {flags : Flags} {topic : Option Topic} {packetId : Option UInt16}
      {topicBytes idBytes : Bytes} (flagged : flags.Form byte) (named : TopicForm topic topicBytes)
      (identified : PacketIdForm flags.qos packetId idBytes) :
      Opening byte (topicBytes ++ idBytes)

/-- Behind fields that are accepted, a packet is refused with whatever its properties are refused
with. Nothing of the context was looked at by then. -/
theorem decode_error_of_table {byte : UInt8} {opening length table : Bytes} {declared : Nat}
    {violation : Violation} (opened : Opening byte opening) (spelled : VarInt.Form declared length)
    (failed : schema.read.run (length ++ table) = .error violation) (context : Context) :
    decode byte (opening ++ (length ++ table)) context = (.error violation, context) := by
  obtain @⟨flags, topic, packetId, topicBytes, idBytes, flagged, named, identified⟩ := opened
  have topicRead := topicReader_recognizes.complete named (idBytes ++ (length ++ table))
  have idRead := (packetIdReader_recognizes flags.qos).complete identified (length ++ table)
  have header : (Header.reader flags.qos).run (topicBytes ++ (idBytes ++ (length ++ table))) =
      .error violation := by
    unfold Header.reader
    rw [Reader.run_bind_ok topicRead, List.drop_left, Reader.run_bind_ok idRead, List.drop_left,
      Reader.run_bind_error failed]
    rfl
  have enough : ¬ (topicBytes ++ (idBytes ++ (length ++ table))).length < minimumLength := by
    have field := named.two_le_length
    have present := spelled.length_pos
    simp only [List.length_append]
    unfold minimumLength
    omega
  rw [List.append_assoc]
  simp only [decode, split, Flags.decode_eq_ok_iff.mpr flagged, if_neg enough, header]

/-- Bytes that stand for a text without a null character. -/
def PlainText (data : Bytes) : Prop := ∃ text : String, data = Utf8.encode text ∧ '\x00' ∉ text.toList

/-- Complete values that no property of the kind has, and what they are refused with. A pair of texts
is refused for its name before its value is looked at. -/
inductive FaultyValue : PropertyId → Bytes → Violation → Prop
  | payloadFormat {code : UInt8} (unknown : 1 < code) :
      FaultyValue .payloadFormatIndicator [code] .wrongPayloadFormat
  | topicAlias : FaultyValue .topicAlias [0, 0] .zeroTopicAlias
  | contentType {data encoded : Bytes} (form : BinaryForm data encoded)
      (garbled : ¬ PlainText data) : FaultyValue .contentType encoded .malformedContentType
  | responseTopic {data encoded : Bytes} (form : BinaryForm data encoded)
      (garbled : ∀ topic : Topic, data ≠ Utf8.encode topic.text) :
      FaultyValue .responseTopic encoded .malformedResponseTopic
  | userName {data encoded : Bytes} (form : BinaryForm data encoded) (garbled : ¬ PlainText data) :
      FaultyValue .userProperty encoded .malformedUserProperty
  | userValue {name : String} {data head tail : Bytes} (nameForm : TextForm name head)
      (form : BinaryForm data tail) (garbled : ¬ PlainText data) :
      FaultyValue .userProperty (head ++ tail) .malformedUserProperty
  | zeroSubscription {encoded : Bytes} (form : VarInt.Form 0 encoded) :
      FaultyValue .subscriptionIdentifier encoded .zeroSubscriptionId
  | endlessSubscription {encoded : Bytes} (width : encoded.length = 4)
      (continued : ∀ byte ∈ encoded, 128 ≤ byte) :
      FaultyValue .subscriptionIdentifier encoded .malformedSubscriptionId

/-- What is wrong with the bytes of a property that stands behind others. A property of another packet
type and one that is repeated are refused before their values are looked at. -/
inductive Defect (behind : List Property) : Bytes → Violation → Prop
  | unnamed {name : Bytes} (width : name.length = 4) (continued : ∀ byte ∈ name, 128 ≤ byte) :
      Defect behind name .malformedPropertyId
  | unexpected {number : Nat} {name : Bytes} (named : VarInt.Form number name)
      (foreign : ∀ property : Property, property.id.code.toNat ≠ number) :
      Defect behind name .unexpectedProperty
  | repeated {earlier : Property} {name : Bytes} (member : earlier ∈ behind)
      (single : earlier.id.mayRepeat = false)
      (named : VarInt.Form earlier.id.code.toNat name) : Defect behind name .repeatedProperty
  | value {id : PropertyId} {name encoded : Bytes} {violation : Violation}
      (named : VarInt.Form id.code.toNat name)
      (fresh : ∀ earlier ∈ behind, earlier.id = id → id.mayRepeat)
      (faulty : FaultyValue id encoded violation) : Defect behind (name ++ encoded) violation

theorem exists_text_error {data encoded : Bytes} (form : BinaryForm data encoded)
    (garbled : ¬ PlainText data) (rest : Bytes) :
    ∃ fault, Reader.text.run (encoded ++ rest) = .error fault := by
  cases answer : Reader.plainText data with
  | error fault =>
    exact ⟨fault, (Reader.binary_recognizes.complete form).andThen_error answer rest⟩
  | ok text => exact absurd ⟨text, Reader.plainText_eq_ok_iff.mp answer⟩ garbled

theorem run_endless {bytes : Bytes} (width : bytes.length = 4)
    (continued : ∀ byte ∈ bytes, 128 ≤ byte) (rest : Bytes) :
    VarInt.reader.run (bytes ++ rest) = .error .tooLong :=
  VarInt.decode_eq_tooLong_iff.mpr ⟨bytes, rest, rfl, width, continued⟩

private theorem ofCode?_of_unknown {code : UInt8} (unknown : 1 < code) :
    PayloadFormat.ofCode? code = none := by
  cases found : PayloadFormat.ofCode? code with
  | none => rfl
  | some format =>
    have bound : ¬ 1 < format.code := by cases format <;> decide
    exact absurd (PayloadFormat.ofCode?_eq_some_iff.mp found ▸ unknown) bound

private theorem toOption_of_garbled {data : Bytes}
    (garbled : ∀ topic : Topic, data ≠ Utf8.encode topic.text) :
    (Topic.ofBytes data).toOption = none := by
  cases answer : Topic.ofBytes data with
  | error fault => rfl
  | ok topic => exact absurd (Topic.ofBytes_eq_ok_iff.mp answer) (garbled topic)

/-- A faulty value is refused with what is wrong with it, whatever follows. -/
theorem FaultyValue.refused {id : PropertyId} {encoded : Bytes} {violation : Violation}
    (faulty : FaultyValue id encoded violation) (rest : Bytes) :
    ∃ reader, Property.value? id = some reader ∧
      reader.run (encoded ++ rest) = .error violation := by
  cases faulty with
  | @payloadFormat code unknown =>
    have read : Reader.uint8.Reads code [code] := Reader.uint8_recognizes.complete rfl
    refine ⟨_, rfl, Reader.run_map_error ?_ _⟩
    exact (read.mapError _).mapSome_error _ (ofCode?_of_unknown unknown) rest
  | topicAlias =>
    have read : Reader.uint16.Reads 0 [0, 0] := Reader.uint16_recognizes.complete rfl
    refine ⟨_, rfl, Reader.run_map_error ?_ _⟩
    exact (read.mapError _).mapSome_error _ rfl rest
  | contentType form garbled =>
    obtain ⟨fault, failed⟩ := exists_text_error form garbled rest
    exact ⟨_, rfl, Reader.run_map_error (Reader.run_mapError_error failed _) _⟩
  | responseTopic form garbled =>
    have read := (Reader.binary_recognizes.complete form).mapError
      fun _ => Violation.malformedResponseTopic
    refine ⟨_, rfl, Reader.run_map_error ?_ _⟩
    exact read.mapSome_error _ (toOption_of_garbled garbled) rest
  | userName form garbled =>
    obtain ⟨fault, failed⟩ := exists_text_error form garbled rest
    have pair : Reader.userProperty.run (encoded ++ rest) = .error fault :=
      Reader.run_bind_error failed _
    exact ⟨_, rfl, Reader.run_map_error (Reader.run_mapError_error pair _) _⟩
  | @userValue name data head tail nameForm form garbled =>
    obtain ⟨fault, failed⟩ := exists_text_error form garbled rest
    have nameRead := Reader.text_recognizes.complete nameForm (tail ++ rest)
    have pair : Reader.userProperty.run (head ++ tail ++ rest) = .error fault := by
      unfold Reader.userProperty
      rw [List.append_assoc, Reader.run_bind_ok nameRead, List.drop_left,
        Reader.run_bind_error failed]
      rfl
    exact ⟨_, rfl, Reader.run_map_error (Reader.run_mapError_error pair _) _⟩
  | zeroSubscription form =>
    have read := (VarInt.reader_recognizes.complete form).mapError
      fun _ => Violation.malformedSubscriptionId
    refine ⟨_, rfl, Reader.run_map_error ?_ _⟩
    exact read.mapSome_error _ rfl rest
  | endlessSubscription width continued =>
    have failed := Reader.run_mapError_error (run_endless width continued rest)
      fun _ => Violation.malformedSubscriptionId
    exact ⟨_, rfl, Reader.run_map_error (Reader.run_mapSome_error failed _ _) _⟩

/-- There is a property of every kind that has a reader. -/
theorem exists_property {id : PropertyId} (supported : (Property.value? id).isSome) :
    ∃ property : Property, property.id = id := by
  cases id <;> cases supported
  case payloadFormatIndicator => exact ⟨.payloadFormat .utf8, rfl⟩
  case messageExpiryInterval => exact ⟨.messageExpiry 0, rfl⟩
  case contentType => exact ⟨.contentType "", rfl⟩
  case responseTopic => exact ⟨.responseTopic ⟨"a", by decide, by decide, by simp⟩, rfl⟩
  case correlationData => exact ⟨.correlationData [], rfl⟩
  case subscriptionIdentifier => exact ⟨.subscription ⟨1, Nat.one_pos⟩, rfl⟩
  case topicAlias => exact ⟨.topicAlias ⟨1, by decide⟩, rfl⟩
  case userProperty => exact ⟨.user ⟨"", ""⟩, rfl⟩

/-- A defect stops the loop over the properties, whatever follows. -/
theorem Defect.stops {properties : List Property} {item : Bytes} {violation : Violation}
    (defect : Defect properties item violation) (rest : Bytes) (missing : Nat) :
    PropertyTable.Stops schema.faults schema.handler properties.reverse (item ++ rest) missing
      violation := by
  cases defect with
  | unnamed width continued => exact .unnamed (run_endless width continued rest)
  | unexpected named foreign =>
    refine PropertySchema.stops_of_unexpected named fun id known => ?_
    apply Option.not_isSome_iff_eq_none.mp
    intro supported
    obtain ⟨property, rfl⟩ := exists_property supported
    exact foreign property (PropertyId.ofIdentifier?_eq_some_iff.mp known)
  | repeated member single named =>
    exact PropertySchema.stops_of_repeated (List.mem_reverse.mpr member)
      (schema_describes.admitted _) single named
  | value named fresh faulty =>
    obtain ⟨reader, supported, failed⟩ := faulty.refused rest
    rw [List.append_assoc]
    exact PropertySchema.stops_of_value supported
      (fun earlier member => fresh earlier (List.mem_reverse.mp member)) named failed

/-- The first defect among the properties is what a packet is refused with. The bytes that follow the
defect, the topic aliases and the policy do not matter, and the context stays as it is. -/
theorem decode_of_defect {byte : UInt8} {opening length entries item rest : Bytes} {declared : Nat}
    {properties : List Property} {violation : Violation} (opened : Opening byte opening)
    (spelled : VarInt.Form declared length)
    (listed : Concatenation (schema.EntryForm Property.ValueForm) properties entries)
    (unrepeated : schema.Unrepeated properties) (defect : Defect properties item violation)
    (reaches : entries.length < declared) (enough : declared ≤ (entries ++ (item ++ rest)).length)
    (context : Context) :
    decode byte (opening ++ (length ++ (entries ++ (item ++ rest)))) context =
      (.error violation, context) := by
  have failed := PropertySchema.read_error_of_stops schema_describes spelled listed unrepeated reaches
    enough (defect.stops rest _)
  exact decode_error_of_table opened spelled failed context

/-- The topic alias stands twice in the table, the second time with half of a value that is no alias. -/
theorem decode_of_repeated_alias :
    let context : Context := .ofConfig { topicAliasMaximum := 1, validatePayload := true }
    let properties : List Property := [.user ⟨"k", "v"⟩, .topicAlias ⟨2, by decide⟩]
    schema.Unrepeated properties ∧ Defect properties [0x23] .repeatedProperty ∧
      decode 0x3B ([0, 0, 0, 9] ++ ([0x8D, 0] ++ ([0x26, 0, 1, 0x6B, 0, 1, 0x76, 0xA3, 0, 0, 2] ++
        ([0x23] ++ [0])))) context = (.error .repeatedProperty, context) := by
  intro context properties
  have length : VarInt.Form 13 [0x8D, 0] := VarInt.reader_recognizes.whole rfl
  have user : schema.EntryForm Property.ValueForm (.user ⟨"k", "v"⟩)
      ([0x26] ++ [0, 1, 0x6B, 0, 1, 0x76]) := by
    have name : VarInt.Form 0x26 [0x26] := VarInt.reader_recognizes.whole rfl
    have pair : UserProperty.Form ⟨"k", "v"⟩ [0, 1, 0x6B, 0, 1, 0x76] :=
      Reader.userProperty_recognizes.whole (by decide +kernel)
    exact .entry name pair
  have once : schema.EntryForm Property.ValueForm (.topicAlias ⟨2, by decide⟩)
      ([0xA3, 0] ++ [0, 2]) := by
    have name : VarInt.Form 0x23 [0xA3, 0] := VarInt.reader_recognizes.whole rfl
    exact .entry name rfl
  have unrepeated : schema.Unrepeated properties := by
    simp [properties, PropertySchema.Unrepeated, PropertySchema.Compatible, schema, Property.id]
  have defect : Defect properties [0x23] .repeatedProperty := by
    have name : VarInt.Form 0x23 [0x23] := VarInt.reader_recognizes.whole rfl
    exact .repeated (List.mem_cons_of_mem _ List.mem_cons_self) rfl name
  have opened : Opening 0x3B ([0, 0] ++ [0, 9]) := by
    have flagged : Flags.decode 0x3B = .ok ⟨true, .atLeastOnce, true⟩ := by decide
    have identified : PacketIdForm .atLeastOnce (some 9) [0, 9] := .present (by decide)
    exact .fields (Flags.decode_eq_ok_iff.mp flagged) .omitted identified
  exact ⟨unrepeated, defect, decode_of_defect opened length (.cons user (.cons once .nil)) unrepeated
    defect (by decide) (by decide) context⟩

end Mqtt.Publish
