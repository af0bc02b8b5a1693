import Mqtt.Proofs.Framing
import Mqtt.Proofs.Packet

/-!
Packets that are not written. A packet that is too large is refused before anything of it is written.
Every other error comes in the middle of a packet, and what was written by then stays: whatever is
written later is taken for the rest of the packet.
-/
namespace Mqtt.Codec

/-- Where a packet that fails leaves the output. Too large a packet is always refused, and the output is
as it was. After any other error the packet has its fixed header there, and less content than the header
announces; a receiver takes as many bytes as are missing from what follows. -/
theorem output_of_encode_error (codec : Codec) (packet : Packet) (output : Bytes) :
    let size := packet.size codec.limit
    let content := (packet.content size).bytes
    ((codec.encode packet output).1 = .error .maxSizeExceeded ↔ codec.limit < size) ∧
    (codec.limit < size → (codec.encode packet output).2 = output) ∧
    ∀ error, (codec.encode packet output).1 = .error error → error ≠ .maxSizeExceeded →
      Encoding.Interrupts error ∧
      (codec.encode packet output).2 =
        output ++ (packet.firstByte :: VarInt.encode size ++ content) ∧
      (size ≤ VarInt.maximum →
        content.length < size ∧
        ∀ receiver : Codec, receiver.pending = none → receiver.maxFrameSize = 0 →
          ∀ later, size ≤ (content ++ later).length →
            receiver.decode (packet.firstByte :: VarInt.encode size ++ content ++ later) =
              .ok ⟨some ⟨⟨packet.firstByte, size⟩, (content ++ later).take size⟩, receiver,
                (content ++ later).drop size⟩) := by
  intro size content
  by_cases exceeded : codec.limit < size
  · rw [encode_exceeded exceeded]
    refine ⟨iff_of_true rfl exceeded, fun _ => rfl, fun error failed other => ?_⟩
    cases failed
    exact absurd rfl other
  · have allowed := Nat.le_of_not_lt exceeded
    rw [encode_of_le allowed]
    refine ⟨iff_of_false (fun refused => ?_) exceeded, fun larger => absurd larger exceeded, ?_⟩
    -- No encoder of a content refuses by size, so the two kinds of failures are told apart by the error.
    · cases Packet.interrupts_of_content (Encoding.result_eq_error_iff.mp refused)
    · intro error failed _
      have stopped := Encoding.result_eq_error_iff.mp failed
      refine ⟨Packet.interrupts_of_content stopped, rfl, fun fits => ?_⟩
      refine ⟨((Packet.content_ends fits).stops error stopped).2, ?_⟩
      intro receiver fresh unlimited later enough
      rw [List.append_assoc]
      exact decode_declared fresh (.inl unlimited) fits packet.firstByte enough

/-- A PUBLISH that is to be acknowledged, without the number that it would be acknowledged by. -/
def unnumbered : Packet :=
  .publish { qos := .atLeastOnce, topic := ⟨"t", by decide, by decide, by simp⟩ }

/-- The first bytes of two PINGREQ packets behind it become part of its content. -/
theorem output_of_encode_unnumbered :
    (({} : Codec).encode unnumbered []).1 = .error .packetIdRequired ∧
      ({} : Codec).decode ((({} : Codec).encode unnumbered []).2 ++ [0xC0, 0, 0xC0, 0]) =
        .ok ⟨some ⟨⟨0x32, 6⟩, [0, 1, 0x74, 0xC0, 0, 0xC0]⟩, {}, [0]⟩ := by
  have failed : (({} : Codec).encode unnumbered []).1 = .error .packetIdRequired := by
    decide +kernel
  have size : unnumbered.size ({} : Codec).limit = 6 := by decide +kernel
  have content : (unnumbered.content 6).bytes = [0, 1, 0x74] := by decide +kernel
  obtain ⟨-, -, interrupted⟩ := output_of_encode_error {} unnumbered []
  obtain ⟨-, left, follows⟩ := interrupted .packetIdRequired failed (by decide)
  rw [size, content] at left follows
  obtain ⟨-, swallows⟩ := follows (by decide)
  refine ⟨failed, ?_⟩
  rw [left]
  exact swallows {} rfl rfl [0xC0, 0, 0xC0, 0] (by decide)

theorem not_output_kept :
    ¬ ∀ (codec : Codec) (packet : Packet) (output : Bytes) (error : WireError),
      (codec.encode packet output).1 = .error error → (codec.encode packet output).2 = output := by
  intro kept
  have same := kept {} unnumbered [] .packetIdRequired (by decide +kernel)
  exact absurd same (by decide +kernel)

end Mqtt.Codec
