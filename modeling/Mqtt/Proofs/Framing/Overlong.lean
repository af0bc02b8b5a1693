import Mqtt.Proofs.Framing.Outcome

/-!
The fixed headers that are written. A header is read as it was meant wherever the length of the packet
has a form. A limit above the protocol's own lets packets through whose length has none: their length
field has more bytes than a receiver takes.
-/
namespace Mqtt

namespace Packet

/-- The variable byte integers that are written of a packet with content of a size: the length in its
fixed header, the length of its properties, and the identifiers of subscriptions. -/
def integers (packet : Packet) (size : Nat) : List Nat :=
  size ::
    match packet with
    | publish packet =>
      packet.properties.size :: packet.properties.subscriptionIds.map SubscriptionId.value
    | disconnect _ => [VarInt.blockLength (size - 1)]
    | other _ _ => []

/-- Next to the length in the header the others are small, or were checked. -/
theorem integers_le {packet : Packet} {limit : Nat} (fits : packet.size limit ≤ VarInt.maximum)
    (complete : (packet.content (packet.size limit)).error = none) :
    ∀ number ∈ packet.integers (packet.size limit), number ≤ VarInt.maximum := by
  refine List.forall_mem_cons.mpr ⟨fits, ?_⟩
  cases packet with
  | publish packet =>
    have properties : packet.properties.size ≤ packet.size := by
      unfold Publish.size
      omega
    refine List.forall_mem_cons.mpr ⟨properties.trans fits, List.forall_mem_map.mpr ?_⟩
    intro id member
    exact Nat.le_of_not_lt fun large =>
      (sound_of_complete fits complete).2 (.subscriptionId member large)
  | disconnect packet =>
    refine List.forall_mem_singleton.mpr (Nat.le_trans ?_ fits)
    exact Nat.le_trans (Nat.sub_le _ _) (Nat.sub_le _ _)
  | other header content => nofun

end Packet

namespace Codec

variable {codec : Codec} {packet : Packet} {output : Bytes}

/-- What becomes of the header of a packet that is written. A receiver takes the packet as one frame if
its size has a form, and otherwise does not get beyond its length; no other limit than one above the
protocol's lets such a packet through. -/
theorem header_of_encode (written : (codec.encode packet output).1 = .ok ()) :
    let size := packet.size codec.limit
    let content := (packet.content size).bytes
    (codec.encode packet output).2 =
      output ++ (packet.firstByte :: VarInt.encode size ++ content) ∧
    (size ≤ VarInt.maximum →
      content.length = size ∧ (VarInt.encode size).length ≤ 4 ∧
      (∀ number ∈ packet.integers size, number ≤ VarInt.maximum) ∧
      ∀ receiver : Codec, receiver.pending = none → receiver.maxFrameSize = 0 → ∀ rest,
        receiver.decode (packet.firstByte :: VarInt.encode size ++ content ++ rest) =
          .ok ⟨some ⟨⟨packet.firstByte, size⟩, content⟩, receiver, rest⟩) ∧
    (VarInt.maximum < size →
      VarInt.maximum < codec.maxPacketSize ∧ 4 < (VarInt.encode size).length ∧
      ∀ receiver : Codec, receiver.pending = none → ∀ rest,
        receiver.decode (packet.firstByte :: VarInt.encode size ++ content ++ rest) =
          .error .invalidLength) := by
  intro size content
  obtain ⟨allowed, complete⟩ := complete_of_encode written
  refine ⟨by rw [encode_of_le allowed], fun fits => ?_, fun overlong => ?_⟩
  · -- The announced size was only summed up; that it is the length of the content needs the encoders.
    have length : content.length = size := (Packet.content_ends fits).accounts complete
    refine ⟨length, ?_, Packet.integers_le fits complete, fun receiver fresh unlimited rest => ?_⟩
    · rw [VarInt.length_encode fits]
      exact VarInt.size_le_four size
    · have enough : size ≤ (content ++ rest).length := by
        rw [List.length_append, length]
        exact Nat.le_add_right ..
      have taken := decode_declared fresh (.inl unlimited) fits packet.firstByte enough
      rwa [List.take_left' length, List.drop_left' length, ← List.append_assoc] at taken
  · refine ⟨?_, VarInt.lt_length_encode overlong, fun receiver fresh rest => ?_⟩
    · apply Nat.lt_of_not_le
      intro bounded
      exact Nat.not_lt.mpr (Nat.le_trans allowed (limit_le bounded)) overlong
    · rw [List.append_assoc]
      exact decode_overlong fresh overlong packet.firstByte _

/-- The smallest packet that is too large for every receiver, and the smallest limit that allows it. -/
theorem header_of_encode_unreadable :
    let codec : Codec := { maxPacketSize := 268435456 }
    let packet : Packet := .other ⟨0x30, 0⟩ (List.replicate 268435456 0)
    (codec.encode packet []).1 = .ok () ∧
      ({} : Codec).decode (codec.encode packet []).2 = .error .invalidLength := by
  intro codec packet
  have size : packet.size codec.limit = 268435456 := List.length_replicate
  have limit : codec.limit = 268435456 := rfl
  have allowed : packet.size codec.limit ≤ codec.limit := by rw [size, limit]
  have written : (codec.encode packet []).1 = .ok () := by
    rw [encode_of_le allowed]
    rfl
  have overlong : VarInt.maximum < packet.size codec.limit := by
    rw [size]
    decide
  obtain ⟨same, -, unreadable⟩ := header_of_encode written
  obtain ⟨-, -, refused⟩ := unreadable overlong
  have answer := refused {} rfl []
  rw [List.append_nil] at answer
  exact ⟨written, by rw [same]; exact answer⟩

end Codec
end Mqtt
