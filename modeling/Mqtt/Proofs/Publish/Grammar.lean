import Mqtt.Proofs.Publish.Properties
import Mqtt.Proofs.TopicAlias.Resolution
import Mqtt.Publish.Decode

/-!
The grammar of PUBLISH. A frame denotes a packet in a context when it is made of the fields of the
packet, its alias resolves, and its payload is the text it is declared to be. The decoder accepts
exactly such frames. Which violation another frame is refused with is not covered.
-/
namespace Mqtt.Publish

/-- The flags of a first byte, whose upper half does not matter. -/
structure Flags.Form (flags : Flags) (byte : UInt8) : Prop where
  qos : flags.qos.code.toNat = byte.toNat / 2 % 4
  dup : flags.dup = byte.toNat.testBit 3
  retain : flags.retain = byte.toNat.testBit 0
  allowed : flags.dup → flags.qos ≠ .atMostOnce

/-- An empty name leaves the topic to the alias. -/
inductive TopicForm : Option Topic → Bytes → Prop
  | omitted : TopicForm none (BigEndian.encode 2 0)
  | name {topic : Topic} {encoded : Bytes} (form : topic.Form encoded) :
      TopicForm (some topic) encoded

inductive PacketIdForm : QoS → Option UInt16 → Bytes → Prop
  | absent : PacketIdForm .atMostOnce none []
  | present {qos : QoS} {number : UInt16} (acknowledged : qos ≠ .atMostOnce) :
      PacketIdForm qos (some number) (BigEndian.encode 2 number.toNat)

/-- The fields between the fixed header and the payload. -/
inductive Header.Form (qos : QoS) : Header → Bytes → Prop
  | fields {topic : Option Topic} {packetId : Option UInt16} {record : Properties}
      {properties : List Property} {topicBytes idBytes tableBytes : Bytes}
      (named : TopicForm topic topicBytes) (identified : PacketIdForm qos packetId idBytes)
      (listed : schema.TableForm Property.ValueForm properties tableBytes)
      (collected : record.Collects properties) :
      Form qos ⟨topic, packetId, record⟩ (topicBytes ++ idBytes ++ tableBytes)

/-- A payload without bytes is none. -/
inductive PayloadForm : Option Bytes → Bytes → Prop
  | absent : PayloadForm none []
  | present {content : Bytes} (nonempty : content ≠ []) : PayloadForm (some content) content

/-- The packet that a frame stands for in a context, and the context to go on with. -/
inductive Denotes (byte : UInt8) (context : Context) : Bytes → Publish → Context → Prop
  | packet {flags : Flags} {header : Header} {resolved : TopicAlias.Resolution}
      {payload : Option Bytes} {head rest : Bytes}
      (flagged : flags.Form byte) (headed : header.Form flags.qos head)
      (resolves : context.Resolves header.topic header.properties.topicAlias resolved)
      (carried : PayloadForm payload rest)
      (textual : context.policy.validatePayload → header.properties.payloadFormat = some .utf8 →
        Utf8.Valid rest) :
      Denotes byte context (head ++ rest)
        { dup := flags.dup
          retain := flags.retain
          qos := flags.qos
          topic := resolved.topic
          packetId := header.packetId
          payload := payload
          isNewAlias := resolved.isNew
          properties := header.properties }
        resolved.context

/-- Accepted or not, the topic field is binary data. -/
theorem TopicForm.exists_binary {topic : Option Topic} {encoded : Bytes}
    (form : TopicForm topic encoded) : ∃ data, BinaryForm data encoded := by
  cases form with
  | omitted => exact ⟨[], .bytes (Nat.zero_le _)⟩
  | name form => exact ⟨_, form⟩

theorem TopicForm.two_le_length {topic : Option Topic} {encoded : Bytes}
    (form : TopicForm topic encoded) : 2 ≤ encoded.length := by
  obtain ⟨data, ⟨short⟩⟩ := form.exists_binary
  rw [List.length_append, BigEndian.length_encode]
  exact Nat.le_add_right ..

theorem PacketIdForm.length {qos : QoS} {packetId : Option UInt16} {encoded : Bytes}
    (form : PacketIdForm qos packetId encoded) :
    encoded.length = if qos = .atMostOnce then 0 else 2 := by
  cases form with
  | absent => rfl
  | present acknowledged => rw [if_neg acknowledged, BigEndian.length_encode]

private theorem bits_of_byte (byte : UInt8) :
    ((byte &&& 0b0110) >>> 1).toNat = byte.toNat / 2 % 4 ∧
      (byte &&& 0b1000 != 0) = byte.toNat.testBit 3 ∧
      (byte &&& 0b0001 != 0) = byte.toNat.testBit 0 := by
  have table : ∀ number : Fin 256,
      ((UInt8.ofNat number &&& 0b0110) >>> 1).toNat = number / 2 % 4 ∧
        (UInt8.ofNat number &&& 0b1000 != 0) = number.val.testBit 3 ∧
        (UInt8.ofNat number &&& 0b0001 != 0) = number.val.testBit 0 := by
    decide +kernel
  simpa using table ⟨byte.toNat, byte.toNat_lt⟩

theorem Flags.decode_eq_ok_iff {byte : UInt8} {flags : Flags} :
    decode byte = .ok flags ↔ flags.Form byte := by
  obtain ⟨qos, dup, retain⟩ := bits_of_byte byte
  unfold decode
  rw [dup, retain]
  constructor
  · intro found
    split at found
    · cases found
    · rename_i level known
      have code := congrArg UInt8.toNat (QoS.ofCode?_eq_some_iff.mp known)
      dsimp only at found
      split at found
      · cases found
      · rename_i allowed
        cases found
        refine ⟨code.trans qos, rfl, rfl, fun again unacknowledged => allowed ?_⟩
        simp_all
  · intro form
    have code : flags.qos.code = (byte &&& 0b0110) >>> 1 :=
      UInt8.toNat_inj.mp (form.qos.trans qos.symm)
    rw [QoS.ofCode?_eq_some_iff.mpr code, ← form.dup, ← form.retain]
    dsimp only
    rw [if_neg]
    simpa using form.allowed

theorem topicReader_recognizes : topicReader.Recognizes TopicForm := by
  refine ((Reader.binary_recognizes.mapError _).mapSome _ _).congr fun topic encoded => ?_
  constructor
  · intro found
    obtain ⟨data, form, converted⟩ := found
    unfold topicName at converted
    split at converted
    · rename_i empty
      cases converted
      rw [List.isEmpty_iff.mp empty] at form
      cases form
      exact .omitted
    · cases answer : Topic.ofBytes data with
      | error fault => simp [answer, Except.toOption] at converted
      | ok name =>
        simp only [answer, Except.toOption, Option.map_some, Option.some.injEq] at converted
        subst converted
        rw [Topic.ofBytes_eq_ok_iff.mp answer] at form
        exact .name form
  · intro form
    cases form with
    | omitted => exact ⟨[], .bytes (Nat.zero_le _), rfl⟩
    | @name topic encoded form =>
      refine ⟨Utf8.encode topic.text, form, ?_⟩
      have nonempty : (Utf8.encode topic.text).isEmpty = false := by
        rw [List.isEmpty_eq_false_iff]
        intro empty
        apply topic.isName.nonempty
        exact Utf8.encode_injective empty
      rw [topicName, nonempty, Topic.ofBytes_eq_ok_iff.mpr rfl]
      rfl

theorem packetIdReader_recognizes (qos : QoS) :
    (packetIdReader qos).Recognizes (PacketIdForm qos) := by
  unfold packetIdReader
  split
  · rename_i unacknowledged
    subst unacknowledged
    refine (Reader.Recognizes.pure none).congr fun packetId encoded => ?_
    constructor
    · intro given
      obtain ⟨rfl, rfl⟩ := given
      exact .absent
    · intro form
      cases form with
      | absent => exact ⟨rfl, rfl⟩
      | present acknowledged => exact absurd rfl acknowledged
  · rename_i acknowledged
    refine ((Reader.uint16_recognizes.mapError _).map some).congr fun packetId encoded => ?_
    constructor
    · intro given
      obtain ⟨number, rfl, rfl⟩ := given
      exact .present acknowledged
    · intro form
      cases form with
      | absent => exact absurd rfl acknowledged
      | present => exact ⟨_, rfl, rfl⟩

theorem Header.reader_recognizes (qos : QoS) : (reader qos).Recognizes (Form qos) := by
  refine (topicReader_recognizes.bind fun topic => (packetIdReader_recognizes qos).bind
    fun packetId => (PropertySchema.read_recognizes schema_describes).bind
      fun properties => Reader.Recognizes.pure _).congr fun header encoded => ?_
  constructor
  · intro given
    obtain ⟨topic, topicBytes, _, rfl, named, packetId, idBytes, _, rfl, identified, properties,
      tableBytes, _, rfl, listed, rfl, rfl⟩ := given
    rw [List.append_nil, ← List.append_assoc]
    exact .fields named identified listed (Properties.collects_ofList listed.unrepeated)
  · intro form
    obtain ⟨named, identified, listed, collected⟩ := form
    rw [List.append_assoc, (Properties.collects_iff listed.unrepeated).mp collected]
    exact ⟨_, _, _, rfl, named, _, _, _, rfl, identified, _, _, [], (List.append_nil _).symm, listed,
      rfl, rfl⟩

private theorem minimumLength_le {qos : QoS} {header : Header} {encoded : Bytes}
    (form : header.Form qos encoded) : minimumLength ≤ encoded.length := by
  obtain ⟨named, identified, ⟨declared, listed, unrepeated⟩, collected⟩ := form
  rename_i topicBytes idBytes length entries
  have topicLength := named.two_le_length
  have lengthLength : 0 < length.length := declared.length_pos
  simp only [List.length_append]
  unfold minimumLength
  omega

theorem split_eq_ok_iff {byte : UInt8} {frame payload : Bytes} {flags : Flags} {header : Header} :
    split byte frame = .ok (flags, header, payload) ↔
      flags.Form byte ∧ ∃ head, frame = head ++ payload ∧ header.Form flags.qos head := by
  constructor
  · intro found
    unfold split at found
    split at found
    · cases found
    · rename_i decoded
      split at found
      · cases found
      · split at found
        · cases found
        · rename_i header used read
          cases found
          obtain ⟨head, parts, -, form⟩ := (Header.reader_recognizes flags.qos).split read
          exact ⟨Flags.decode_eq_ok_iff.mp decoded, head, parts, form⟩
  · intro given
    obtain ⟨flagged, head, rfl, form⟩ := given
    have read := (Header.reader_recognizes flags.qos).complete form payload
    have enough : ¬ (head ++ payload).length < minimumLength := by
      have bound := minimumLength_le form
      rw [List.length_append]
      omega
    simp only [split, Flags.decode_eq_ok_iff.mpr flagged, if_neg enough, read, List.drop_left]

theorem payloadAllowed_iff {policy : DecodePolicy} {format : Option PayloadFormat} {payload : Bytes} :
    payloadAllowed policy format payload ↔
      (policy.validatePayload → format = some .utf8 → Utf8.Valid payload) := by
  unfold payloadAllowed
  cases policy.validatePayload with
  | false => simp
  | true => by_cases declared : format = some .utf8 <;> simp [declared]

theorem payloadForm_iff {payload : Option Bytes} {rest : Bytes} :
    PayloadForm payload rest ↔ payload = if rest.isEmpty then none else some rest := by
  constructor
  · intro form
    cases form with
    | absent => rfl
    | present nonempty => rw [if_neg (by simpa using nonempty)]
  · rintro rfl
    cases rest with
    | nil => exact .absent
    | cons byte behind => exact .present (List.cons_ne_nil byte behind)

theorem Denotes.resolves {byte : UInt8} {context after : Context} {frame : Bytes} {publish : Publish}
    (denotes : Denotes byte context frame publish after) :
    ∃ topic, context.Resolves topic publish.properties.topicAlias
      ⟨publish.topic, publish.isNewAlias, after⟩ := by
  obtain ⟨flagged, headed, resolves, carried, textual⟩ := denotes
  exact ⟨_, resolves⟩

/-- A frame in the grammar is decoded to what it denotes. -/
theorem Denotes.decode {byte : UInt8} {context after : Context} {frame : Bytes} {publish : Publish}
    (denotes : Denotes byte context frame publish after) :
    decode byte frame context = (.ok publish, after) := by
  obtain @⟨flags, header, resolved, payload, head, rest, flagged, headed, resolves, carried,
    textual⟩ := denotes
  have opened : split byte (head ++ rest) = .ok (flags, header, rest) :=
    split_eq_ok_iff.mpr ⟨flagged, head, rfl, headed⟩
  have found := Context.resolve_eq_ok_iff.mpr resolves
  rw [payloadForm_iff.mp carried]
  simp only [Publish.decode, opened, found, if_pos (payloadAllowed_iff.mpr textual)]

theorem denotes_of_decode {byte : UInt8} {context after : Context} {frame : Bytes}
    {publish : Publish} (decoded : decode byte frame context = (.ok publish, after)) :
    Denotes byte context frame publish after := by
  unfold decode at decoded
  split at decoded
  · cases decoded
  · rename_i flags header payload opened
    split at decoded
    · cases decoded
    · rename_i resolved found
      split at decoded
      · rename_i allowed
        cases decoded
        obtain ⟨flagged, head, rfl, headed⟩ := split_eq_ok_iff.mp opened
        exact .packet flagged headed (Context.resolve_eq_ok_iff.mp found)
          (payloadForm_iff.mpr rfl) (payloadAllowed_iff.mp allowed)
      · cases decoded

/-- The decoder accepts the frames of the grammar, and hands over the packets they denote. -/
theorem decode_eq_ok_iff_denotes {byte : UInt8} {context after : Context} {frame : Bytes}
    {publish : Publish} :
    decode byte frame context = (.ok publish, after) ↔
      Denotes byte context frame publish after := by
  constructor
  · intro decoded
    exact denotes_of_decode decoded
  · intro denotes
    exact denotes.decode

end Mqtt.Publish
