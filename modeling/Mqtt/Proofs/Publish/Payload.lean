import Mqtt.Proofs.Publish.Grammar

/-!
What a payload cannot do. Where the fields in front of it end depends on those fields alone: also a
faulty table that reaches into the payload is never read as if it ended there. So a payload that is not
checked does not change whether a packet is accepted, nor anything else about it. The violation that
another packet is refused with may depend on its payload.
-/
namespace Mqtt.Publish

/-- Everything in front of a payload, accepted or not: a topic field, a packet identifier where the
flags ask for one, a property length and as many bytes as it declares. -/
inductive Delimited (byte : UInt8) : Bytes → Prop
  | fields {topic topicBytes idBytes length table : Bytes} (named : BinaryForm topic topicBytes)
      (identified : idBytes.length = if byte.toNat / 2 % 4 = 0 then 0 else 2)
      (declared : VarInt.Form table.length length) :
      Delimited byte (topicBytes ++ (idBytes ++ (length ++ table)))

theorem Flags.Form.unacknowledged_iff {flags : Flags} {byte : UInt8} (form : flags.Form byte) :
    flags.qos = .atMostOnce ↔ byte.toNat / 2 % 4 = 0 := by
  rw [← form.qos]
  cases flags.qos <;> decide

variable {byte : UInt8} {context after : Context} {start first second : Bytes}

/-- A header that is accepted ends where its fields end. -/
theorem Delimited.eq_of_form {flags : Flags} {header : Header} {head rest : Bytes}
    (delimited : Delimited byte start) (flagged : flags.Form byte)
    (headed : header.Form flags.qos head) (same : head ++ rest = start ++ first) :
    head = start ∧ rest = first := by
  obtain ⟨named, identified, declared⟩ := delimited
  obtain ⟨topicForm, idForm, ⟨lengthForm, -, -⟩, -⟩ := headed
  obtain ⟨data, binary⟩ := topicForm.exists_binary
  simp only [List.append_assoc] at same
  -- Field by field: no two forms of a field fit the same place, and the table has its length in front.
  obtain ⟨-, rfl, following⟩ := Reader.binary_recognizes.unique binary named same
  have width := idForm.length
  simp only [flagged.unacknowledged_iff, ← identified] at width
  obtain ⟨rfl, table⟩ := List.append_inj following width
  obtain ⟨size, rfl, content⟩ := VarInt.reader_recognizes.unique lengthForm declared table
  obtain ⟨rfl, rest⟩ := List.append_inj content size
  exact ⟨List.append_assoc .., rest⟩

/-- A packet that is accepted is accepted with any other payload, if nothing is asked of payloads. -/
theorem Denotes.of_payload {publish : Publish} {payload : Option Bytes}
    (unchecked : context.policy.validatePayload = false) (delimited : Delimited byte start)
    (denotes : Denotes byte context (start ++ first) publish after)
    (carried : PayloadForm payload second) :
    PayloadForm publish.payload first ∧
      Denotes byte context (start ++ second) { publish with payload := payload } after := by
  generalize whole : start ++ first = frame at denotes
  obtain ⟨flagged, headed, resolves, form, -⟩ := denotes
  obtain ⟨rfl, rfl⟩ := delimited.eq_of_form flagged headed whole.symm
  refine ⟨form, .packet flagged headed resolves carried fun checked => ?_⟩
  rw [unchecked] at checked
  cases checked

theorem exists_payload (content : Bytes) : ∃ payload, PayloadForm payload content :=
  ⟨_, payloadForm_iff.mpr rfl⟩

/-- Whether a packet is accepted, and as what, does not depend on a payload that is not checked: two
packets that are the same in front of their payloads are both refused, or differ in nothing else, and
leave the same context. -/
theorem decode_of_payload (unchecked : context.policy.validatePayload = false)
    (delimited : Delimited byte start) (first second : Bytes) :
    ((∃ publish after, decode byte (start ++ first) context = (.ok publish, after)) ↔
      ∃ publish after, decode byte (start ++ second) context = (.ok publish, after)) ∧
    ∀ publish other after later, decode byte (start ++ first) context = (.ok publish, after) →
      decode byte (start ++ second) context = (.ok other, later) →
        PayloadForm publish.payload first ∧ PayloadForm other.payload second ∧
          other = { publish with payload := other.payload } ∧ later = after := by
  have transfer : ∀ one two : Bytes,
      (∃ publish after, decode byte (start ++ one) context = (.ok publish, after)) →
        ∃ publish after, decode byte (start ++ two) context = (.ok publish, after) := by
    rintro one two ⟨publish, after, decoded⟩
    obtain ⟨payload, carried⟩ := exists_payload two
    have denotes := (denotes_of_decode decoded).of_payload unchecked delimited carried
    exact ⟨_, after, denotes.2.decode⟩
  refine ⟨⟨transfer first second, transfer second first⟩, ?_⟩
  intro publish other after later decoded also
  obtain ⟨payload, carried⟩ := exists_payload second
  obtain ⟨form, denotes⟩ := (denotes_of_decode decoded).of_payload unchecked delimited carried
  obtain ⟨same, rfl⟩ := Prod.mk.inj (also.symm.trans denotes.decode)
  cases same
  exact ⟨form, carried, rfl, rfl⟩

/-- A payload that is not the text it is declared to be, and none at all. -/
theorem decode_of_payload_garbled :
    let context : Context := .ofConfig { topicAliasMaximum := 1 }
    let start : Bytes := [0, 1, 0x62] ++ ([0, 7] ++ ([5] ++ [1, 1, 0x23, 0, 1]))
    ∃ publish other after, decode 2 (start ++ [0xFF]) context = (.ok publish, after) ∧
      decode 2 (start ++ []) context = (.ok other, after) ∧
      publish.payload = some [0xFF] ∧ other = { publish with payload := none } := by
  intro context start
  have topic : BinaryForm [0x62] [0, 1, 0x62] := .bytes (by decide)
  have length : VarInt.Form 5 [5] := VarInt.reader_recognizes.whole rfl
  have delimited : Delimited 2 start := .fields topic rfl length
  have unchecked : context.policy.validatePayload = false := rfl
  let publish : Publish :=
    { qos := .atLeastOnce
      topic := ⟨"b", by decide, by decide, by simp⟩
      packetId := some 7
      payload := some [0xFF]
      isNewAlias := true
      properties := { payloadFormat := some .utf8, topicAlias := some ⟨1, by decide⟩ } }
  have decoded : decode 2 (start ++ [0xFF]) context =
      (.ok publish, ⟨some ⟨#[some publish.topic]⟩, {}⟩) := by decide +kernel
  obtain ⟨⟨accepted, -⟩, same⟩ := decode_of_payload unchecked delimited [0xFF] []
  obtain ⟨other, after, also⟩ := accepted ⟨_, _, decoded⟩
  obtain ⟨-, carried, fields, rfl⟩ := same _ _ _ _ decoded also
  rw [payloadForm_iff.mp carried] at fields
  exact ⟨publish, other, _, decoded, also, rfl, fields⟩

end Mqtt.Publish
