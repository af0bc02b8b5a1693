import Mqtt.Proofs.Disconnect.Delivery
import Mqtt.Proofs.Packet

/-!
Which answer an encoder gives. A packet is too large, or lacks the number it would be acknowledged by,
or has a field that is too long, in the order in which these are found, and is written otherwise. Of a
DISCONNECT only those fields count that have room. Limits above the protocol's own are not covered.
-/
namespace Mqtt

namespace Encoding

/-- The encoding stops at a fault if there is a reason to, and otherwise comes to its end. -/
structure StopsIf (encoding : Encoding) (fault : WireError) (reason : Prop) : Prop where
  stopped : reason → encoding.error = some fault
  complete : ¬ reason → encoding.error = none

namespace StopsIf

variable {first second encoding : Encoding} {fault : WireError} {reason other : Prop}

theorem never (ends : encoding.error = none) : encoding.StopsIf fault False where
  stopped := nofun
  complete _ := ends

theorem congr (stops : encoding.StopsIf fault reason) (same : reason ↔ other) :
    encoding.StopsIf fault other where
  stopped found := stops.stopped (same.mpr found)
  complete absent := stops.complete fun found => absent (same.mp found)

protected theorem append (head : first.StopsIf fault reason) (tail : second.StopsIf fault other) :
    (first ++ second).StopsIf fault (reason ∨ other) where
  stopped found := by
    rw [error_append]
    by_cases early : reason
    · rw [head.stopped early]
      rfl
    · rw [head.complete early, tail.stopped (found.resolve_left early)]
      rfl
  complete absent := by
    obtain ⟨notFirst, notSecond⟩ := not_or.mp absent
    exact error_append_eq_none_iff.mpr ⟨head.complete notFirst, tail.complete notSecond⟩

/-- What is written in front, and comes to its end, gives no reasons. -/
theorem behind (tail : second.StopsIf fault reason) (ends : first.error = none) :
    (first ++ second).StopsIf fault reason :=
  ((never ends).append tail).congr (by rw [false_or])

theorem concat {α : Type} {encode : α → Encoding} {reason : α → Prop}
    (each : ∀ item, (encode item).StopsIf fault (reason item)) (items : List α) :
    (Encoding.concat (items.map encode)).StopsIf fault (∃ item ∈ items, reason item) := by
  induction items with
  | nil => exact (never rfl).congr (by simp)
  | cons item rest ih => exact ((each item).append ih).congr (by simp)

theorem not_of_complete (stops : encoding.StopsIf fault reason) (ends : encoding.error = none) :
    ¬ reason := by
  intro found
  cases (stops.stopped found).symm.trans ends

end StopsIf

theorem binary_stopsIf (data : Bytes) :
    (binary data).StopsIf .invalidLength (maximumFieldLength < data.length) where
  stopped long := by rw [error_binary, if_neg (Nat.not_le.mpr long)]
  complete short := by rw [error_binary, if_pos (Nat.le_of_not_lt short)]

theorem text_stopsIf (value : String) :
    (text value).StopsIf .invalidLength (maximumFieldLength < value.utf8ByteSize) :=
  (binary_stopsIf (Utf8.encode value)).congr (by rw [Utf8.length_encode])

end Encoding

/-- The name or the value has more bytes than the length of a field can say. -/
def UserProperty.Overlong (property : UserProperty) : Prop :=
  maximumFieldLength < property.name.utf8ByteSize ∨ maximumFieldLength < property.value.utf8ByteSize

theorem Encoding.userProperty_stopsIf (property : UserProperty) :
    (userProperty property).StopsIf .invalidLength property.Overlong :=
  (text_stopsIf property.name).append (text_stopsIf property.value)

namespace Publish

/-- The packet is to be acknowledged, and has no number for that. -/
def Unnumbered (publish : Publish) : Prop := publish.qos ≠ .atMostOnce ∧ publish.packetId = none

/-- A field of the packet is too long. The topic never is. -/
inductive Overlong (publish : Publish) : Prop
  | contentType {text : String} (sent : publish.properties.contentType = some text)
      (long : maximumFieldLength < text.utf8ByteSize)
  | correlationData {data : Bytes} (sent : publish.properties.correlationData = some data)
      (long : maximumFieldLength < data.length)
  | userProperty {property : UserProperty} (sent : property ∈ publish.properties.userProperties)
      (long : property.Overlong)
  | subscriptionId {id : SubscriptionId} (sent : id ∈ publish.properties.subscriptionIds)
      (large : VarInt.maximum < id.value)

def Property.Overlong : Property → Prop
  | contentType text => maximumFieldLength < text.utf8ByteSize
  | correlationData data => maximumFieldLength < data.length
  | user property => property.Overlong
  | subscription id => VarInt.maximum < id.value
  | _ => False

theorem Property.encoding_stopsIf (property : Property) :
    property.encoding.StopsIf .invalidLength property.Overlong := by
  cases property with
  | payloadFormat format => exact .never rfl
  | messageExpiry seconds => exact .never rfl
  | topicAlias name => exact .never rfl
  | contentType text => exact (Encoding.text_stopsIf text).behind rfl
  | responseTopic topic =>
    exact .never ((Encoding.uint8_writes _).append (Encoding.topic_writes topic)).complete
  | correlationData data => exact (Encoding.binary_stopsIf data).behind rfl
  | user property => exact (Encoding.userProperty_stopsIf property).behind rfl
  | subscription id =>
    refine ⟨fun large => ?_, fun small => ?_⟩
    · rw [encoding, if_neg (Nat.not_le.mpr large)]
      rfl
    · rw [encoding, if_pos (Nat.le_of_not_lt small)]
      rfl

theorem overlong_iff {publish : Publish} :
    publish.Overlong ↔ ∃ property ∈ publish.properties.toList, property.Overlong := by
  constructor
  · rintro (⟨sent, long⟩ | ⟨sent, long⟩ | ⟨sent, long⟩ | ⟨sent, large⟩)
    · exact ⟨.contentType _, Properties.mem_toList_iff.mpr sent, long⟩
    · exact ⟨.correlationData _, Properties.mem_toList_iff.mpr sent, long⟩
    · exact ⟨.user _, Properties.mem_toList_iff.mpr sent, long⟩
    · exact ⟨.subscription _, Properties.mem_toList_iff.mpr sent, large⟩
  · rintro ⟨property, member, long⟩
    have sent := Properties.mem_toList_iff.mp member
    cases property with
    | contentType text => exact .contentType sent long
    | correlationData data => exact .correlationData sent long
    | user property => exact .userProperty sent long
    | subscription id => exact .subscriptionId sent long
    | _ => exact long.elim

theorem topicEncoding_complete (publish : Publish) : publish.topicEncoding.error = none :=
  (topicEncoding_writes publish).complete

theorem packetIdEncoding_stopsIf (publish : Publish) :
    publish.packetIdEncoding.StopsIf .packetIdRequired publish.Unnumbered := by
  unfold packetIdEncoding Unnumbered
  split
  · rename_i unacknowledged
    exact (Encoding.StopsIf.never rfl).congr (by simp [unacknowledged])
  · rename_i acknowledged
    cases found : publish.packetId with
    | none => exact ⟨fun _ => rfl, fun numbered => absurd ⟨acknowledged, rfl⟩ numbered⟩
    | some number => exact (Encoding.StopsIf.never rfl).congr (by simp)

/-- The length of the table is in front of its entries, and is checked first. -/
theorem properties_stopsIf {publish : Publish}
    (fits : publish.properties.size ≤ VarInt.maximum) :
    publish.properties.encoding.StopsIf .invalidLength publish.Overlong := by
  rw [Properties.encoding, if_pos fits]
  exact ((Encoding.StopsIf.concat Property.encoding_stopsIf _).behind rfl).congr overlong_iff.symm

end Publish

namespace Disconnect

/-- A field of the packet is too long. -/
inductive Overlong (disconnect : Disconnect) : Prop
  | serverReference {text : String} (sent : disconnect.serverReference = some text)
      (long : maximumFieldLength < text.utf8ByteSize)
  | userProperty {property : UserProperty} (sent : property ∈ disconnect.userProperties)
      (long : property.Overlong)
  | reasonString {text : String} (sent : disconnect.reasonString = some text)
      (long : maximumFieldLength < text.utf8ByteSize)

def Property.Overlong : Property → Prop
  | sessionExpiry _ => False
  | serverReference text => maximumFieldLength < text.utf8ByteSize
  | reasonString text => maximumFieldLength < text.utf8ByteSize
  | user property => property.Overlong

theorem Property.encoding_stopsIf (property : Property) :
    property.encoding.StopsIf .invalidLength property.Overlong := by
  cases property with
  | sessionExpiry seconds => exact .never rfl
  | serverReference text => exact (Encoding.text_stopsIf text).behind rfl
  | reasonString text => exact (Encoding.text_stopsIf text).behind rfl
  | user property => exact (Encoding.userProperty_stopsIf property).behind rfl

theorem overlong_iff {disconnect : Disconnect} :
    disconnect.Overlong ↔ ∃ property ∈ disconnect.properties, property.Overlong := by
  constructor
  · rintro (⟨sent, long⟩ | ⟨sent, long⟩ | ⟨sent, long⟩)
    · exact ⟨.serverReference _, mem_properties_iff.mpr sent, long⟩
    · exact ⟨.user _, mem_properties_iff.mpr sent, long⟩
    · exact ⟨.reasonString _, mem_properties_iff.mpr sent, long⟩
  · rintro ⟨property, member, long⟩
    have sent := mem_properties_iff.mp member
    cases property with
    | sessionExpiry seconds => exact long.elim
    | serverReference text => exact .serverReference sent long
    | reasonString text => exact .reasonString sent long
    | user property => exact .userProperty sent long

/-- Diagnostics that are left out may be of any length. -/
theorem encoding_stopsIf (disconnect : Disconnect) (limit : Nat) :
    (disconnect.encoding (disconnect.size limit)).StopsIf .invalidLength
      (disconnect.trim (disconnect.budget limit)).Overlong := by
  rw [encoding_size]
  exact ((Encoding.StopsIf.concat Property.encoding_stopsIf _).behind rfl).congr overlong_iff.symm

end Disconnect

namespace Packet

/-- A PUBLISH that is to be acknowledged, and has no number for that. -/
def Unnumbered : Packet → Prop
  | publish packet => packet.Unnumbered
  | _ => False

/-- A field that is written under the limit is too long. -/
def Overlong (limit : Nat) : Packet → Prop
  | publish packet => packet.Overlong
  | disconnect packet =>
    ∃ kept, Disconnect.KeepsTo (limit - 5 - packet.fixedSize) packet kept ∧ kept.Overlong
  | other _ _ => False

variable {packet : Packet}

theorem content_unnumbered (unnumbered : packet.Unnumbered) (limit : Nat) :
    (packet.content (packet.size limit)).error = some .packetIdRequired := by
  cases packet with
  | publish packet =>
    simp only [content, Publish.encoding, Encoding.error_append,
      (Publish.packetIdEncoding_stopsIf packet).stopped unnumbered, packet.topicEncoding_complete]
    rfl
  | disconnect packet => cases unnumbered
  | other header content => cases unnumbered

theorem content_stopsIf {limit : Nat} (fits : packet.size limit ≤ VarInt.maximum)
    (numbered : ¬ packet.Unnumbered) :
    (packet.content (packet.size limit)).StopsIf .invalidLength (packet.Overlong limit) := by
  cases packet with
  | publish packet =>
    have properties : packet.properties.size ≤ VarInt.maximum := by
      simp only [size, Publish.size] at fits
      omega
    have header : (packet.topicEncoding ++ packet.packetIdEncoding).error = none :=
      Encoding.error_append_eq_none_iff.mpr
        ⟨packet.topicEncoding_complete, packet.packetIdEncoding_stopsIf.complete numbered⟩
    have payload : (Encoding.ofBytes (packet.payload.getD [])).StopsIf .invalidLength False :=
      .never rfl
    exact (((Publish.properties_stopsIf properties).behind header).append payload).congr
      (by rw [or_false]; rfl)
  | disconnect packet =>
    have budget : limit - 5 - packet.fixedSize = packet.budget limit :=
      Nat.sub_sub limit 5 packet.fixedSize
    refine (packet.encoding_stopsIf limit).congr ?_
    simp only [Overlong, budget, Disconnect.keepsTo_iff, exists_eq_left]
  | other header content => exact .never rfl

/-- Content that came to its end gave no reason to stop. -/
theorem sound_of_complete {limit : Nat} (fits : packet.size limit ≤ VarInt.maximum)
    (complete : (packet.content (packet.size limit)).error = none) :
    ¬ packet.Unnumbered ∧ ¬ packet.Overlong limit := by
  have numbered : ¬ packet.Unnumbered := fun unnumbered => by
    cases (content_unnumbered unnumbered limit).symm.trans complete
  exact ⟨numbered, (content_stopsIf fits numbered).not_of_complete complete⟩

end Packet

namespace Codec

variable {codec : Codec}

/-- The answer for every packet under every limit that the protocol has a length for. What is in the
output stays in front of what is written, and alone if the packet is too large. -/
theorem encode_outcomes (known : codec.maxPacketSize ≤ VarInt.maximum) (packet : Packet)
    (output : Bytes) :
    let size := packet.size codec.limit
    let result := (codec.encode packet output).1
    let written := (codec.encode packet output).2
    (result = .error .maxSizeExceeded ↔ codec.limit < size) ∧
    (result = .error .packetIdRequired ↔ size ≤ codec.limit ∧ packet.Unnumbered) ∧
    (result = .error .invalidLength ↔
      size ≤ codec.limit ∧ ¬ packet.Unnumbered ∧ packet.Overlong codec.limit) ∧
    (result = .ok () ↔
      size ≤ codec.limit ∧ ¬ packet.Unnumbered ∧ ¬ packet.Overlong codec.limit) ∧
    (codec.limit < size → written = output) ∧
    output <+: written := by
  intro size result written
  simp only [result, written]
  -- The questions in the order in which they are asked: each answer leaves out the later questions.
  by_cases exceeded : codec.limit < size
  · rw [encode_exceeded exceeded]
    simp [exceeded]
  · have allowed : size ≤ codec.limit := Nat.le_of_not_lt exceeded
    have fits : size ≤ VarInt.maximum := allowed.trans (limit_le known)
    rw [encode_of_le allowed]
    by_cases unnumbered : packet.Unnumbered
    · have answer := Encoding.result_eq_error_iff.mpr
        (Packet.content_unnumbered unnumbered codec.limit)
      simp [answer, exceeded, allowed, unnumbered]
    · have stops := Packet.content_stopsIf fits unnumbered
      by_cases overlong : packet.Overlong codec.limit
      · have answer := Encoding.result_eq_error_iff.mpr (stops.stopped overlong)
        simp [answer, exceeded, allowed, unnumbered, overlong]
      · have answer := Encoding.result_eq_ok_iff.mpr (stops.complete overlong)
        simp [answer, exceeded, allowed, unnumbered, overlong]

/-- The shortest text that is too long for a field. -/
def verbose : String := String.ofList (List.replicate 65536 'x')

private theorem utf8ByteSize_replicate (count : Nat) :
    (String.ofList (List.replicate count 'x')).utf8ByteSize = count := by
  induction count with
  | zero => rfl
  | succ count ih =>
    rw [List.replicate_succ, String.ofList_cons, String.utf8ByteSize_append, ih]
    exact Nat.add_comm 1 count

/-- As a reason it is an error only where it has room. -/
theorem encode_verbose :
    let packet := Packet.disconnect (.withReason .protocolError verbose)
    (({ maxPacketSize := 65543 } : Codec).encode packet []).1 = .ok () ∧
      (({ maxPacketSize := 65544 } : Codec).encode packet []).1 = .error .invalidLength := by
  intro packet
  have long : verbose.utf8ByteSize = 65536 := utf8ByteSize_replicate 65536
  have size (limit : Nat) : packet.size limit = if 65544 ≤ limit then 65543 else 2 := by
    simp only [packet, Packet.size, Disconnect.size_withReason, long]
    rfl
  have dropped : ¬ packet.Overlong 65543 := by
    rintro ⟨kept, keeps, overlong⟩
    rw [Disconnect.keepsTo_iff, Disconnect.trim_withReason, Disconnect.size_reasonString, long,
      if_neg (by decide)] at keeps
    subst keeps
    rcases overlong with ⟨sent, -⟩ | ⟨sent, -⟩ | ⟨sent, -⟩ <;> cases sent
  have kept : packet.Overlong 65544 := by
    refine ⟨.withReason .protocolError verbose, ?_, .reasonString rfl (by rw [long]; decide)⟩
    rw [Disconnect.keepsTo_iff, Disconnect.trim_withReason, Disconnect.size_reasonString, long,
      if_pos (by decide)]
  have below : ({ maxPacketSize := 65543 } : Codec).maxPacketSize ≤ VarInt.maximum := by decide
  have enough : ({ maxPacketSize := 65544 } : Codec).maxPacketSize ≤ VarInt.maximum := by decide
  obtain ⟨-, -, -, written, -⟩ := encode_outcomes below packet []
  obtain ⟨-, -, refused, -⟩ := encode_outcomes enough packet []
  exact ⟨written.mpr ⟨by rw [size]; decide, nofun, dropped⟩,
    refused.mpr ⟨by rw [size]; decide, nofun, kept⟩⟩

end Codec
end Mqtt
