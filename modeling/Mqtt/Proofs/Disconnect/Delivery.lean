import Mqtt.Proofs.Disconnect.Grammar
import Mqtt.Proofs.Disconnect.Writing
import Mqtt.Proofs.Framing

/-!
A DISCONNECT on its way to the peer. Under a limit it arrives with everything but the diagnostics
that had no room, and it is refused only when what is never left out has no room. Packets with texts
that are no fields are not covered.
-/
namespace Mqtt

namespace Disconnect

/-- The longest start of some items whose sizes add up to at most `budget`. -/
structure IsLongestStart {α : Type} (size : α → Nat) (budget : Nat) (items kept : List α) : Prop where
  start : kept <+: items
  fits : totalSize size kept ≤ budget
  longest : ∀ other, other <+: items → totalSize size other ≤ budget → other <+: kept

private theorem prefix_fitting {α : Type} {size : α → Nat} {budget : Nat} {items other : List α}
    (start : other <+: items) (fits : totalSize size other ≤ budget) :
    other <+: fitting size budget items := by
  induction items generalizing budget other with
  | nil =>
    rw [List.prefix_nil.mp start]
    exact List.nil_prefix
  | cons item rest ih =>
    cases other with
    | nil => exact List.nil_prefix
    | cons first behind =>
      obtain ⟨rfl, inner⟩ := List.cons_prefix_cons.mp start
      rw [totalSize_cons] at fits
      rw [fitting, if_pos (by omega)]
      exact List.cons_prefix_cons.mpr ⟨rfl, ih inner (by omega)⟩

theorem fitting_isLongestStart {α : Type} (size : α → Nat) (budget : Nat) (items : List α) :
    IsLongestStart size budget items (fitting size budget items) where
  start := fitting_isPrefix budget items
  fits := totalSize_fitting_le budget items
  longest _ := prefix_fitting

theorem IsLongestStart.unique {α : Type} {size : α → Nat} {budget : Nat} {items first second : List α}
    (one : IsLongestStart size budget items first) (two : IsLongestStart size budget items second) :
    first = second := by
  have shorter := two.longest first one.start one.fits
  have longer := one.longest second two.start two.fits
  exact shorter.eq_of_length_le longer.length_le

/-- The packet that arrives when the diagnostics of the one that was sent have to keep to a budget. -/
structure KeepsTo (budget : Nat) (sent received : Disconnect) : Prop where
  reason : received.reason = sent.reason
  sessionExpiry : received.sessionExpiry = sent.sessionExpiry
  serverReference : received.serverReference = sent.serverReference
  userProperties : IsLongestStart (fun property => (Property.user property).size) budget
    sent.userProperties received.userProperties
  reasonString : ∀ text, received.reasonString = some text ↔
    sent.reasonString = some text ∧
      (Property.reasonString text).size ≤ budget - sizeOf (received.userProperties.map Property.user)

theorem trim_keepsTo (disconnect : Disconnect) (budget : Nat) :
    KeepsTo budget disconnect (disconnect.trim budget) where
  reason := rfl
  sessionExpiry := rfl
  serverReference := rfl
  userProperties := fitting_isLongestStart _ budget disconnect.userProperties
  reasonString text := by simp [trim, Option.filter_eq_some_iff]

/-- The budget determines what arrives. -/
theorem keepsTo_iff {budget : Nat} {sent received : Disconnect} :
    KeepsTo budget sent received ↔ received = sent.trim budget := by
  constructor
  · intro keeps
    have trimmed := trim_keepsTo sent budget
    have users : received.userProperties = (sent.trim budget).userProperties :=
      keeps.userProperties.unique trimmed.userProperties
    have string : received.reasonString = (sent.trim budget).reasonString := by
      apply Option.ext
      intro text
      rw [keeps.reasonString, trimmed.reasonString, users]
    cases received
    simp only [trim, Disconnect.mk.injEq]
    exact ⟨keeps.reason, keeps.sessionExpiry, keeps.serverReference, string, users⟩
  · rintro rfl
    exact trim_keepsTo sent budget

/-- Every text of the packet has a form as a field. -/
structure Sendable (disconnect : Disconnect) : Prop where
  serverReference : ∀ text, disconnect.serverReference = some text → SendableText text
  reasonString : ∀ text, disconnect.reasonString = some text → SendableText text
  userProperties : ∀ property ∈ disconnect.userProperties,
    SendableText property.name ∧ SendableText property.value

def Property.Sendable : Property → Prop
  | sessionExpiry _ => True
  | serverReference text => SendableText text
  | reasonString text => SendableText text
  | user property => SendableText property.name ∧ SendableText property.value

/-- The packet holds the property in the field for its kind. -/
def Holds (disconnect : Disconnect) : Property → Prop
  | .sessionExpiry seconds => disconnect.sessionExpiry = some seconds
  | .serverReference text => disconnect.serverReference = some text
  | .reasonString text => disconnect.reasonString = some text
  | .user property => property ∈ disconnect.userProperties

theorem mem_properties_iff {disconnect : Disconnect} {property : Property} :
    property ∈ disconnect.properties ↔ disconnect.Holds property := by
  cases property <;> simp [properties, fixedProperties, diagnostics, Holds]

theorem Sendable.properties {disconnect : Disconnect} (sendable : disconnect.Sendable) :
    ∀ property ∈ disconnect.properties, property.Sendable := by
  intro property member
  have held := mem_properties_iff.mp member
  cases property with
  | sessionExpiry seconds => trivial
  | serverReference text => exact sendable.serverReference text held
  | reasonString text => exact sendable.reasonString text held
  | user property => exact sendable.userProperties property held

theorem KeepsTo.sendable {budget : Nat} {sent received : Disconnect}
    (keeps : KeepsTo budget sent received) (sendable : sent.Sendable) : received.Sendable where
  serverReference text found := sendable.serverReference text (keeps.serverReference ▸ found)
  reasonString text found := sendable.reasonString text ((keeps.reasonString text).mp found).1
  userProperties property member :=
    sendable.userProperties property (keeps.userProperties.start.subset member)

theorem Property.value_writes {property : Property} (sendable : property.Sendable) :
    property.value.Writes property.ValueForm property.valueSize := by
  cases property with
  | sessionExpiry seconds => exact Encoding.uint32_writes seconds
  | serverReference text => exact Encoding.text_writes sendable
  | reasonString text => exact Encoding.text_writes sendable
  | user property => exact Encoding.userProperty_writes sendable.1 sendable.2

theorem Property.encoding_writes {property : Property} (sendable : property.Sendable) :
    property.encoding.Writes (schema.EntryForm Property.ValueForm property) property.size :=
  schema.entry_writes (value_writes sendable)

theorem unrepeated_properties (disconnect : Disconnect) :
    schema.Unrepeated disconnect.properties := by
  have users : (disconnect.userProperties.map Property.user).Pairwise schema.Compatible :=
    PropertySchema.pairwise_map (fun _ => rfl) disconnect.userProperties
  unfold PropertySchema.Unrepeated properties fixedProperties diagnostics
  simp only [List.pairwise_append, schema.pairwise_option, users, List.mem_append,
    Option.mem_toList, Option.map_eq_some_iff, List.mem_map]
  simp [or_imp, forall_and, PropertySchema.Compatible, schema, Property.id]

/-- The content of a packet is a body that is read as what the limit leaves of the packet. -/
theorem encoding_writes {disconnect : Disconnect} {limit : Nat} (sendable : disconnect.Sendable)
    (fits : disconnect.size limit ≤ VarInt.maximum) :
    (disconnect.encoding (disconnect.size limit)).Writes
      (fun body => decode body = .ok (disconnect.trim (disconnect.budget limit)))
      (disconnect.size limit) := by
  have length : disconnect.propertiesSize limit ≤ VarInt.maximum := by
    simp only [size] at fits
    omega
  have kept := (trim_keepsTo disconnect (disconnect.budget limit)).sendable sendable
  have table := PropertySchema.table_writes length
    (unrepeated_properties (disconnect.trim (disconnect.budget limit))) fun property member =>
      Property.encoding_writes (kept.properties property member)
  rw [encoding_size, Encoding.append_assoc, size, Nat.add_assoc]
  apply ((Encoding.uint8_writes disconnect.reason.code).append table).imp
  intro bytes found
  obtain ⟨front, back, rfl, rfl, listed⟩ := found
  rw [← ofProperties_properties (disconnect.trim (disconnect.budget limit))]
  exact decode_cons listed

/-- The bytes are one frame, and the packet is what a receiver without limits reads from it. -/
def IsReadFrom (disconnect : Disconnect) (encoded : Bytes) : Prop :=
  ∃ frame, ({} : Codec).decode encoded = .ok ⟨some frame, {}, []⟩ ∧
    frame.header.packetType = PacketType.disconnect ∧ decode frame.body = .ok disconnect

end Disconnect

namespace Codec

open Disconnect

variable {codec : Codec} {disconnect : Disconnect}

/-- Where there is room for what is never left out, the packet is written as one frame. -/
theorem encode_disconnect (sendable : disconnect.Sendable)
    (allowed : disconnect.size codec.limit ≤ codec.limit)
    (fits : disconnect.size codec.limit ≤ VarInt.maximum) :
    ∃ encoded, (∀ output, codec.encode (.disconnect disconnect) output = (.ok (), output ++ encoded)) ∧
      (disconnect.trim (disconnect.budget codec.limit)).IsReadFrom encoded := by
  obtain ⟨frame, encoded, written, form, firstByte, read⟩ :=
    encode_frame codec (.disconnect disconnect) allowed fits (encoding_writes sendable fits)
  have decoded : ({} : Codec).decode encoded = .ok ⟨some frame, {}, []⟩ := by
    have alone : ({} : Codec).decode (encoded ++ []) = .ok ⟨some frame, {}, []⟩ :=
      decode_frame rfl (.inl rfl) form []
    rwa [List.append_nil] at alone
  have sent : frame.header.packetType = PacketType.disconnect := by
    rw [FixedHeader.packetType, firstByte]
    show PacketType.disconnect <<< 4 >>> 4 = PacketType.disconnect
    decide
  exact ⟨encoded, written, frame, decoded, sent, read⟩

/-- Diagnostics never keep a packet from being written. Those that have room in front of the peer's
limit arrive, with the longest length field set aside. -/
theorem decode_encode_disconnect (sendable : disconnect.Sendable)
    (known : codec.maxPacketSize ≤ VarInt.maximum) :
    (∀ output, (codec.encode (.disconnect disconnect) output).1 = .error .maxSizeExceeded ↔
      codec.limit < 1 + VarInt.size disconnect.fixedSize + disconnect.fixedSize) ∧
    (1 + VarInt.size disconnect.fixedSize + disconnect.fixedSize ≤ codec.limit →
      ∃ encoded received,
        (∀ output, codec.encode (.disconnect disconnect) output = (.ok (), output ++ encoded)) ∧
        received.IsReadFrom encoded ∧
        KeepsTo (codec.limit - 5 - disconnect.fixedSize) disconnect received) := by
  have limited : codec.limit ≤ VarInt.maximum := by
    unfold limit
    split
    · exact Nat.le_refl _
    · exact known
  have delivered (room : 1 + VarInt.size disconnect.fixedSize + disconnect.fixedSize ≤ codec.limit) :
      ∃ encoded,
        (∀ output, codec.encode (.disconnect disconnect) output = (.ok (), output ++ encoded)) ∧
        (disconnect.trim (disconnect.budget codec.limit)).IsReadFrom encoded := by
    have allowed := (size_le_iff disconnect codec.limit).mpr room
    exact encode_disconnect sendable allowed (Nat.le_trans allowed limited)
  constructor
  · intro output
    constructor
    · intro refused
      by_contra room
      obtain ⟨encoded, written, -⟩ := delivered (Nat.le_of_not_lt room)
      rw [written] at refused
      cases refused
    · intro exceeded
      rw [encode_exceeded]
      exact Nat.lt_of_not_le fun allowed =>
        Nat.not_le.mpr exceeded ((size_le_iff disconnect codec.limit).mp allowed)
  · intro room
    obtain ⟨encoded, written, read⟩ := delivered room
    have left : codec.limit - 5 - disconnect.fixedSize = disconnect.budget codec.limit :=
      Nat.sub_sub codec.limit 5 disconnect.fixedSize
    refine ⟨encoded, _, written, read, ?_⟩
    rw [left]
    exact trim_keepsTo disconnect (disconnect.budget codec.limit)

end Codec

namespace Disconnect

/-- The second property has no room among 18 bytes. The third one has, and is left out with it. -/
def crowded : Disconnect where
  reason := .malformedPacket
  reasonString := some "r"
  userProperties := [⟨"k", "v"⟩, ⟨"long key", "long value"⟩, ⟨"a", "b"⟩]

private theorem sendable_crowded : crowded.Sendable where
  serverReference := nofun
  reasonString text found := by
    cases found
    exact ⟨by simp, by decide⟩
  userProperties := by
    simp only [crowded, List.mem_cons, List.not_mem_nil, or_false, forall_eq_or_imp, forall_eq]
    refine ⟨⟨⟨?_, ?_⟩, ?_, ?_⟩, ⟨⟨?_, ?_⟩, ?_, ?_⟩, ⟨?_, ?_⟩, ?_, ?_⟩
    all_goals decide

theorem crowded_arrives :
    crowded.Sendable ∧ ∃ encoded,
      ({ maxPacketSize := 23 } : Codec).encode (.disconnect crowded) [] = (.ok (), encoded) ∧
      IsReadFrom { crowded with userProperties := [⟨"k", "v"⟩] } encoded := by
  refine ⟨sendable_crowded, ?_⟩
  have known : ({ maxPacketSize := 23 } : Codec).maxPacketSize ≤ VarInt.maximum := by decide
  obtain ⟨encoded, received, written, read, keeps⟩ :=
    (Codec.decode_encode_disconnect sendable_crowded known).2 (by decide)
  have same : received = { crowded with userProperties := [⟨"k", "v"⟩] } :=
    keepsTo_iff.mp keeps
  exact ⟨encoded, written [], same ▸ read⟩

end Disconnect
end Mqtt
