import Mqtt.Proofs.Connection.Signalling
import Mqtt.Proofs.Packet

/-!
The length of what is sent. The peer's limit is held against the content of a packet, and the fixed
header comes on top of it: a packet that all but fills the limit is longer than the limit. Packets
whose length has no form in a fixed header are not covered.
-/
namespace Mqtt

namespace Codec

/-- The bytes of a packet with content of a size that is within a limit. -/
structure LimitsContent (limit size : Nat) (encoded : Bytes) : Prop where
  content : size ≤ limit
  length : encoded.length = 1 + VarInt.size size + size

variable {codec : Codec}

theorem LimitsContent.length_le {limit size : Nat} {encoded : Bytes}
    (limits : LimitsContent limit size encoded) : encoded.length ≤ limit + 5 := by
  have header := VarInt.size_le_four size
  rw [limits.length]
  have content := limits.content
  omega

theorem encode_limitsContent {packet : Packet} {output : Bytes}
    (fits : packet.size codec.limit ≤ VarInt.maximum)
    (written : (codec.encode packet output).1 = .ok ()) :
    ∃ encoded, (codec.encode packet output).2 = output ++ encoded ∧
      LimitsContent codec.limit (packet.size codec.limit) encoded := by
  obtain ⟨allowed, complete⟩ := complete_of_encode written
  have header := (Encoding.uint8_writes packet.firstByte).append (Encoding.varInt_writes fits)
  have whole := header.append ((Packet.content_ends fits).writes complete)
  refine ⟨(codec.encoding packet).bytes, rfl, allowed, ?_⟩
  rw [encoding, if_neg (Nat.not_lt.mpr allowed)]
  exact whole.length

end Codec

namespace Connection

/-- The frame that is sent is the packet as the codec writes it. -/
theorem encode_of_send {connection : Connection} {reason : ReasonCode} {text : String}
    {encoded : Bytes} (sent : .send encoded ∈ (connection.disconnect reason text).events) :
    connection.codec.encode (.disconnect (.withReason reason text)) [] = (.ok (), encoded) := by
  unfold disconnect at sent
  split at sent
  · simp at sent
  · have answered : farewell connection.codec reason text = .send encoded := by
      simpa [shutdown, eq_comm] using sent
    unfold farewell at answered
    dsimp only at answered
    split at answered
    · cases answered
      assumption
    · cases answered

theorem send_limitsContent {connection : Connection} {reason : ReasonCode} {text : String}
    {encoded : Bytes} (sent : .send encoded ∈ (connection.disconnect reason text).events) :
    Codec.LimitsContent connection.codec.limit
      ((Disconnect.withReason reason text).size connection.codec.limit) encoded := by
  have written := encode_of_send sent
  have accepted := congrArg Prod.fst written
  have fits : (Packet.disconnect (.withReason reason text)).size connection.codec.limit ≤
      VarInt.maximum := Disconnect.size_withReason_le (Codec.complete_of_encode accepted).2
  obtain ⟨bytes, same, limits⟩ := Codec.encode_limitsContent fits accepted
  rw [written, List.nil_append] at same
  cases same
  exact limits

/-- With a text of less than 125 bytes only the smallest limits are too small for the fixed header. -/
private theorem length_le_iff_of_short {limit : Nat} {reason : ReasonCode} {text : String}
    {encoded : Bytes} (short : text.utf8ByteSize < 125)
    (limits : Codec.LimitsContent limit ((Disconnect.withReason reason text).size limit) encoded) :
    encoded.length ≤ limit ↔ 4 ≤ limit := by
  have length := limits.length
  rw [Disconnect.size_withReason] at length
  split at length
  · have field : VarInt.size (text.utf8ByteSize + 3) = 1 := if_pos (by omega)
    have header : VarInt.size (1 + 1 + (text.utf8ByteSize + 3)) ≤ 2 := by
      unfold VarInt.size
      repeat' split
      all_goals omega
    rw [field] at length
    omega
  · rw [length]
    rfl

/-- The texts that violations are answered with are short, so the answers keep to every limit that has
room for a DISCONNECT at all. -/
theorem length_decode_le {connection : Connection} {buffer encoded : Bytes}
    (room : 4 ≤ connection.codec.limit)
    (sent : .send encoded ∈ calls (connection.decode buffer).events) :
    encoded.length ≤ connection.codec.limit := by
  cases running : connection.closed with
  | true => simp [decode_closed running] at sent
  | false =>
    by_cases violated : ∃ reason text, Violates connection buffer reason text
    · obtain ⟨reason, text, violates⟩ := violated
      obtain ⟨between, -, longest, -, -, heard⟩ := violates.decode running
      have limit : between.codec.limit = connection.codec.limit := by
        rw [Codec.limit, Codec.limit, longest]
      rw [heard] at sent
      have limits := send_limitsContent (List.mem_filter.mp sent).1
      rw [limit] at limits
      exact (length_le_iff_of_short violates.short limits).mpr room
    · have correct : ∀ reason text, ¬ Violates connection buffer reason text :=
        fun reason text violates => violated ⟨reason, text, violates⟩
      rcases decode_of_not_violates running correct with ⟨-, silent⟩ | ⟨packet, -, -, ended⟩
      · simp [silent] at sent
      · simp [ended] at sent

/-- How long packets are under a limit. Each is longer than its content by the fixed header, so that
it keeps to the limit exactly where the limit has room for the header as well. -/
theorem length_sent_le_iff {codec : Codec} (limited : codec.maxPacketSize ≠ 0) :
    (∀ packet output, packet.size codec.maxPacketSize ≤ VarInt.maximum →
      (codec.encode packet output).1 = .ok () →
      ∃ encoded, (codec.encode packet output).2 = output ++ encoded ∧
        encoded.length ≤ codec.maxPacketSize + 5 ∧
        (encoded.length ≤ codec.maxPacketSize ↔
          1 + VarInt.size (packet.size codec.maxPacketSize) + packet.size codec.maxPacketSize ≤
            codec.maxPacketSize)) ∧
    (∀ connection : Connection, connection.codec = codec → ∀ reason text encoded,
      .send encoded ∈ (connection.disconnect reason text).events →
      encoded.length ≤ codec.maxPacketSize + 5 ∧
        (text.utf8ByteSize < 125 →
          (encoded.length ≤ codec.maxPacketSize ↔ 4 ≤ codec.maxPacketSize))) := by
  have limit : codec.limit = codec.maxPacketSize := if_neg limited
  rw [← limit]
  constructor
  · intro packet output fits written
    obtain ⟨encoded, same, limits⟩ := Codec.encode_limitsContent fits written
    exact ⟨encoded, same, limits.length_le, by rw [limits.length]⟩
  · rintro connection rfl reason text encoded sent
    have limits := send_limitsContent sent
    exact ⟨limits.length_le, fun short => length_le_iff_of_short short limits⟩

/-- Its text takes a length field of two bytes, and so does the packet. -/
def overlong : Packet :=
  .disconnect (.withReason .protocolError (String.ofList (List.replicate 125 'x')))

theorem length_overlong :
    ∃ encoded, ({ maxPacketSize := 133 } : Codec).encode overlong [] = (.ok (), encoded) ∧
      133 < encoded.length := by
  have limited : ({ maxPacketSize := 133 } : Codec).maxPacketSize ≠ 0 := by decide
  have size : overlong.size ({ maxPacketSize := 133 } : Codec).maxPacketSize = 131 := by
    decide +kernel
  have written : (({ maxPacketSize := 133 } : Codec).encode overlong []).1 = .ok () := by
    decide +kernel
  have lengths := (length_sent_le_iff limited).1 overlong []
  rw [size] at lengths
  obtain ⟨encoded, same, -, within⟩ := lengths (by decide) written
  exact ⟨encoded, Prod.ext written same, Nat.lt_of_not_le fun short =>
    absurd (within.mp short) (by decide)⟩

end Connection
end Mqtt
