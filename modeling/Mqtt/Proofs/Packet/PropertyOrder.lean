import Mqtt.Proofs.Disconnect.Canonical
import Mqtt.Proofs.PropertyTable.Rearrangement
import Mqtt.Proofs.Publish.Canonical
import Mqtt.Proofs.Publish.Defects

/-!
The order of properties. A packet is the same packet, and leaves the same context, with its properties
in any order that keeps the user properties in theirs and the subscription identifiers in theirs. That
holds of a packet that is refused behind its properties or for a repeated one as well. Properties that
are malformed are not covered.
-/
namespace Mqtt

namespace Publish

theorem Properties.Collects.rearrange {record : Properties} {first second : List Property}
    (collected : record.Collects first) (rearranges : Rearranges Property.id first second) :
    record.Collects second where
  payloadFormat format := (collected.payloadFormat format).trans rearranges.perm.mem_iff
  messageExpiry seconds := (collected.messageExpiry seconds).trans rearranges.perm.mem_iff
  topicAlias name := (collected.topicAlias name).trans rearranges.perm.mem_iff
  contentType text := (collected.contentType text).trans rearranges.perm.mem_iff
  responseTopic topic := (collected.responseTopic topic).trans rearranges.perm.mem_iff
  correlationData data := (collected.correlationData data).trans rearranges.perm.mem_iff
  userProperties := collected.userProperties.trans (rearranges.ordered .userProperty rfl)
  subscriptionIds := collected.subscriptionIds.trans (rearranges.ordered .subscriptionIdentifier rfl)

/-- Frames with the same well-formed properties in another order, and the same in all other fields. -/
inductive Rearranged (byte : UInt8) : Bytes → Bytes → Prop
  | table {opening table other payload : Bytes} (opened : Opening byte opening)
      (rearranged : schema.Rearranged Property.ValueForm table other) :
      Rearranged byte (opening ++ (table ++ payload)) (opening ++ (other ++ payload))

/-- What a frame is split into depends on its table through the record of its properties only. -/
theorem Opening.exists_split {byte : UInt8} {opening : Bytes} (opened : Opening byte opening) :
    ∃ flags topic packetId, ∀ {properties record table} (payload : Bytes),
      schema.TableForm Property.ValueForm properties table → record.Collects properties →
        split byte (opening ++ (table ++ payload)) =
          .ok (flags, ⟨topic, packetId, record⟩, payload) := by
  obtain @⟨flags, topic, packetId, topicBytes, idBytes, flagged, named, identified⟩ := opened
  refine ⟨flags, topic, packetId, fun {properties record table} payload listed collected => ?_⟩
  refine split_eq_ok_iff.mpr ⟨flagged, topicBytes ++ idBytes ++ table, ?_, ?_⟩
  · rw [List.append_assoc _ table]
  · exact .fields named identified listed collected

/-- The decoder does not tell rearranged frames apart. -/
theorem Rearranged.decode {byte : UInt8} {frame other : Bytes}
    (rearranged : Rearranged byte frame other) (context : Context) :
    decode byte other context = decode byte frame context := by
  obtain @⟨opening, table, other, payload, opened, rearranged⟩ := rearranged
  obtain ⟨first, second, rearranges, listed, relisted⟩ |
    ⟨declared, length, entries, others, spelled, rfl, rfl, refused⟩ :=
      rearranged.read_or_repeated schema_describes
  · obtain ⟨flags, topic, packetId, splits⟩ := opened.exists_split
    have collected := Properties.collects_ofList listed.unrepeated
    simp only [Publish.decode, splits _ listed collected,
      splits _ relisted (collected.rearrange rearranges)]
  · obtain ⟨refused, also_refused⟩ := refused payload
    rw [List.append_assoc, decode_error_of_table opened spelled also_refused, List.append_assoc,
      decode_error_of_table opened spelled refused]

/-- A frame that is accepted has a table of well-formed properties, which can be rearranged. -/
theorem Denotes.rearranged {byte : UInt8} {context after : Context} {frame : Bytes}
    {publish : Publish} (denotes : Denotes byte context frame publish after) :
    Rearranged byte frame frame := by
  obtain ⟨flagged, ⟨named, identified, listed, -⟩, -, -, -⟩ := denotes
  rw [List.append_assoc (_ ++ _)]
  exact .table (.fields flagged named identified) listed.rearranged

/-- A topic alias between two subscriptions is moved in front of them. -/
theorem rearranged_alias :
    Rearranged 0x32 [0, 0, 0, 9, 0x89, 0, 0x0B, 0x81, 0, 0x23, 0, 1, 0x8B, 0, 2]
      [0, 0, 0, 9, 0x89, 0, 0x23, 0, 1, 0x0B, 0x81, 0, 0x8B, 0, 2] := by
  have flagged : Flags.decode 0x32 = .ok ⟨false, .atLeastOnce, false⟩ := by decide
  have identified : PacketIdForm .atLeastOnce (some 9) [0, 9] := .present (by decide)
  have opened : Opening 0x32 ([0, 0] ++ [0, 9]) :=
    .fields (Flags.decode_eq_ok_iff.mp flagged) .omitted identified
  let first : Property × Bytes := (.subscription ⟨1, by decide⟩, [0x0B] ++ [0x81, 0])
  let between : Property × Bytes := (.topicAlias ⟨1, by decide⟩, [0x23] ++ [0, 1])
  let last : Property × Bytes := (.subscription ⟨2, by decide⟩, [0x8B, 0] ++ [2])
  have spells : schema.Spells Property.ValueForm [0x89, 0] [first, between, last] := by
    have integer {value : Nat} {encoded : Bytes}
        (read : VarInt.reader.run encoded = .ok (value, encoded.length)) :
        VarInt.Form value encoded := VarInt.reader_recognizes.whole read
    have declared : VarInt.Form 9 [0x89, 0] := integer rfl
    refine ⟨declared, ?_⟩
    simp only [List.forall_mem_cons]
    exact ⟨.entry (integer rfl) (integer rfl), .entry (integer rfl) rfl,
      .entry (integer rfl) (integer rfl), nofun⟩
  have rearranges : Rearranges (fun entry => schema.id entry.1) [first, between, last]
      [between, first, last] :=
    ⟨.swap between first [last], fun id _ => by cases id <;> rfl⟩
  exact @Rearranged.table 0x32 _ _ _ [] opened (.table spells rearranges)

end Publish

namespace Disconnect

theorem Collects.rearrange {disconnect : Disconnect} {first second : List Property}
    (collected : disconnect.Collects first) (rearranges : Rearranges Property.id first second) :
    disconnect.Collects second where
  sessionExpiry seconds := (collected.sessionExpiry seconds).trans rearranges.perm.mem_iff
  serverReference text := (collected.serverReference text).trans rearranges.perm.mem_iff
  reasonString text := (collected.reasonString text).trans rearranges.perm.mem_iff
  userProperties := collected.userProperties.trans (rearranges.ordered .userProperty rfl)

/-- Bodies with the same reason code, and with the same well-formed properties in another order. -/
inductive Rearranged : Bytes → Bytes → Prop
  | tableless {body : Bytes} (short : body.length ≤ 1) : Rearranged body body
  | table {reason : ReasonCode} {table other : Bytes}
      (rearranged : schema.Rearranged Property.ValueForm table other) :
      Rearranged (reason.code :: table) (reason.code :: other)

theorem decode_cons_error {reason : ReasonCode} {table : Bytes} {error : WireError}
    (present : table ≠ []) (failed : schema.read.run table = .error error) :
    decode (reason.code :: table) = .error error := by
  simp [decode, run_reasonReader, present, failed]

theorem Rearranged.decode {body other : Bytes} (rearranged : Rearranged body other) :
    decode other = decode body := by
  cases rearranged with
  | tableless short => rfl
  | @table reason table other rearranged =>
    obtain ⟨first, second, rearranges, listed, relisted⟩ |
      ⟨declared, length, entries, others, spelled, rfl, rfl, refused⟩ :=
        rearranged.read_or_repeated schema_describes
    · have collected := (collects_ofProperties listed.unrepeated reason).rearrange rearranges
      rw [decode_cons listed, decode_cons relisted]
      exact congrArg Except.ok ((collects_iff relisted.unrepeated).mp collected).symm
    · have present (entries : Bytes) : length ++ entries ≠ [] :=
        List.append_ne_nil_of_left_ne_nil (List.ne_nil_of_length_pos spelled.length_pos) _
      obtain ⟨refused, also_refused⟩ := refused []
      rw [List.append_nil] at refused also_refused
      rw [decode_cons_error (present _) refused, decode_cons_error (present _) also_refused]

theorem Form.rearranged {disconnect : Disconnect} {body : Bytes} (form : disconnect.Form body) :
    Rearranged body body := by
  cases form with
  | empty => exact .tableless (Nat.zero_le 1)
  | reason reason => exact .tableless (Nat.le_refl 1)
  | table listed collected => exact .table listed.rearranged

/-- A session expiry between two user properties is moved in front of them. -/
theorem rearranged_expiry :
    Rearranged
      [0x82, 19, 0x26, 0, 1, 0x6B, 0, 1, 0x76, 0x11, 0, 0, 0, 10, 0x26, 0, 1, 0x61, 0, 1, 0x62]
      [0x82, 19, 0x11, 0, 0, 0, 10, 0x26, 0, 1, 0x6B, 0, 1, 0x76, 0x26, 0, 1, 0x61, 0, 1, 0x62] := by
  let first : Property × Bytes := (.user ⟨"k", "v"⟩, [0x26] ++ [0, 1, 0x6B, 0, 1, 0x76])
  let between : Property × Bytes := (.sessionExpiry 10, [0x11] ++ [0, 0, 0, 10])
  let last : Property × Bytes := (.user ⟨"a", "b"⟩, [0x26] ++ [0, 1, 0x61, 0, 1, 0x62])
  have spells : schema.Spells Property.ValueForm [19] [first, between, last] := by
    have user : VarInt.Form 0x26 [0x26] := VarInt.reader_recognizes.whole rfl
    have pair : UserProperty.Form ⟨"k", "v"⟩ [0, 1, 0x6B, 0, 1, 0x76] :=
      Reader.userProperty_recognizes.whole (by decide +kernel)
    have other : UserProperty.Form ⟨"a", "b"⟩ [0, 1, 0x61, 0, 1, 0x62] :=
      Reader.userProperty_recognizes.whole (by decide +kernel)
    have expiry : VarInt.Form 0x11 [0x11] := VarInt.reader_recognizes.whole rfl
    have declared : VarInt.Form 19 [19] := VarInt.reader_recognizes.whole rfl
    refine ⟨declared, ?_⟩
    simp only [List.forall_mem_cons]
    exact ⟨.entry user pair, .entry expiry rfl, .entry user other, nofun⟩
  have rearranges : Rearranges (fun entry => schema.id entry.1) [first, between, last]
      [between, first, last] :=
    ⟨.swap between first [last], fun id _ => by cases id <;> rfl⟩
  exact @Rearranged.table .protocolError _ _ (.table spells rearranges)

end Disconnect

/-- The properties of a packet that is accepted may stand in any order in which the repeated ones keep
theirs: it is accepted as the same packet, with the same context to go on with. -/
theorem decode_of_rearranged :
    (∀ {byte : UInt8} {context after : Context} {frame : Bytes} {publish : Publish},
      Publish.decode byte frame context = (.ok publish, after) →
        Publish.Rearranged byte frame frame ∧ ∀ other, Publish.Rearranged byte frame other →
          Publish.decode byte other context = (.ok publish, after)) ∧
    ∀ {body : Bytes} {disconnect : Disconnect}, Disconnect.decode body = .ok disconnect →
      Disconnect.Rearranged body body ∧ ∀ other, Disconnect.Rearranged body other →
        Disconnect.decode other = .ok disconnect := by
  constructor
  · intro byte context after frame publish decoded
    refine ⟨(Publish.denotes_of_decode decoded).rearranged, fun other rearranged => ?_⟩
    rw [rearranged.decode, decoded]
  · intro body disconnect decoded
    refine ⟨(Disconnect.form_of_decode decoded).rearranged, fun other rearranged => ?_⟩
    rw [rearranged.decode, decoded]

/-- The rearranged packets are accepted: a publication under an alias that is known, and one with user
properties. -/
theorem decode_of_rearranged_front :
    let context : Context := ⟨some ⟨#[some ⟨"b", by decide, by decide, by simp⟩]⟩, {}⟩
    let publish : Publish :=
      { qos := .atLeastOnce
        topic := ⟨"b", by decide, by decide, by simp⟩
        packetId := some 9
        properties := {
          topicAlias := some ⟨1, by decide⟩
          subscriptionIds := [⟨1, by decide⟩, ⟨2, by decide⟩] } }
    let disconnect : Disconnect :=
      { reason := .protocolError
        sessionExpiry := some 10
        userProperties := [⟨"k", "v"⟩, ⟨"a", "b"⟩] }
    (Publish.decode 0x32 [0, 0, 0, 9, 0x89, 0, 0x0B, 0x81, 0, 0x23, 0, 1, 0x8B, 0, 2] context =
        (.ok publish, context) ∧
      Publish.decode 0x32 [0, 0, 0, 9, 0x89, 0, 0x23, 0, 1, 0x0B, 0x81, 0, 0x8B, 0, 2] context =
        (.ok publish, context)) ∧
    Disconnect.decode
        [0x82, 19, 0x26, 0, 1, 0x6B, 0, 1, 0x76, 0x11, 0, 0, 0, 10, 0x26, 0, 1, 0x61, 0, 1, 0x62] =
          .ok disconnect ∧
      Disconnect.decode
        [0x82, 19, 0x11, 0, 0, 0, 10, 0x26, 0, 1, 0x6B, 0, 1, 0x76, 0x26, 0, 1, 0x61, 0, 1, 0x62] =
          .ok disconnect := by
  intro context publish disconnect
  have published :
      Publish.decode 0x32 [0, 0, 0, 9, 0x89, 0, 0x0B, 0x81, 0, 0x23, 0, 1, 0x8B, 0, 2] context =
        (.ok publish, context) := by decide +kernel
  have disconnected :
      Disconnect.decode
        [0x82, 19, 0x26, 0, 1, 0x6B, 0, 1, 0x76, 0x11, 0, 0, 0, 10, 0x26, 0, 1, 0x61, 0, 1, 0x62] =
          .ok disconnect := by decide +kernel
  exact ⟨⟨published, (decode_of_rearranged.1 published).2 _ Publish.rearranged_alias⟩, disconnected,
    (decode_of_rearranged.2 disconnected).2 _ Disconnect.rearranged_expiry⟩

end Mqtt
