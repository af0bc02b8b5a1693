import Mathlib.Data.List.Forall2
import Mqtt.Proofs.Connection.RoundTrip
import Mqtt.Proofs.Framing.Conservation
import Mqtt.Proofs.Packet

/-!
Packets one behind the other. What a codec writes of a list of packets falls into one frame for each
of them, and a receiver without a limit takes these frames off again, whatever is in the packets.
What the bodies mean is not covered.
-/
namespace Mqtt

/-- What is written of a packet, wherever it is written, is the frame: its first byte is the one that
the packet asks for, and its length the size that was computed for the content. -/
structure Codec.SendsAs (codec : Codec) (packet : Packet) (frame : Frame) : Prop where
  firstByte : packet.Prescribes frame.header.firstByte
  remainingLength : frame.header.remainingLength = packet.size codec.limit
  written : ∃ encoded, frame.Form encoded ∧
    ∀ output, codec.encode packet output = (.ok (), output ++ encoded)

namespace Codec

variable {codec : Codec}

/-- A packet that was written is one frame behind what was in the buffer. -/
theorem sendsAs_of_encode {packet : Packet} {output extended : Bytes}
    (bounded : codec.maxPacketSize ≤ VarInt.maximum)
    (written : codec.encode packet output = (.ok (), extended)) :
    ∃ frame encoded, codec.SendsAs packet frame ∧ frame.Form encoded ∧
      extended = output ++ encoded := by
  obtain ⟨allowed, complete⟩ := complete_of_encode (congrArg Prod.fst written)
  have fits := Nat.le_trans allowed (limit_le bounded)
  have content := ((Packet.content_ends fits).writes complete).withLength
  obtain ⟨frame, encoded, same, form, firstByte, -, size⟩ :=
    encode_frame codec packet allowed fits content
  refine ⟨frame, encoded, ⟨?_, form.remainingLength.trans size, encoded, form, same⟩, form, ?_⟩
  · rw [firstByte]
    exact packet.prescribes_firstByte
  · have answer := written.symm.trans (same output)
    cases answer
    rfl

/-- What is written of a list of packets are frames for the packets, in their order. -/
theorem sendsAs_of_encodeAll {packets : List Packet} {output extended : Bytes}
    (bounded : codec.maxPacketSize ≤ VarInt.maximum)
    (written : codec.encodeAll packets output = (.ok (), extended)) :
    ∃ frames encoded, List.Forall₂ codec.SendsAs packets frames ∧
      Concatenation Frame.Form frames encoded ∧ extended = output ++ encoded := by
  induction packets generalizing output with
  | nil =>
    cases written
    exact ⟨[], [], .nil, .nil, (List.append_nil _).symm⟩
  | cons packet rest ih =>
    rw [encodeAll] at written
    split at written
    · rename_i between first
      obtain ⟨frame, head, sent, form, rfl⟩ := sendsAs_of_encode bounded first
      obtain ⟨frames, tail, others, listed, rfl⟩ := ih written
      exact ⟨frame :: frames, head ++ tail, .cons sent others, .cons form listed,
        List.append_assoc ..⟩
    · cases written

end Codec

namespace Intake

/-- Frames that are accepted are taken off one with each call, and leave what is behind them. -/
theorem run_frames {codec : Codec} {frames : List Frame} {encoded : Bytes}
    (fresh : codec.pending = none) (accepted : ∀ frame ∈ frames, codec.Accepts frame)
    (listed : Concatenation Frame.Form frames encoded) (rest : Bytes) (later : List Operation) :
    (Intake.mk codec (encoded ++ rest)).run (List.replicate frames.length .decode ++ later) =
      (frames.map (fun frame => .ok (some frame)) ++ ((Intake.mk codec rest).run later).1,
        ((Intake.mk codec rest).run later).2) := by
  induction listed with
  | nil => rfl
  | @cons frame frames head tail form _ ih =>
    obtain ⟨first, others⟩ := List.forall_mem_cons.mp accepted
    have taken : (Intake.mk codec (head ++ tail ++ rest)).decode =
        (.ok (some frame), ⟨codec, tail ++ rest⟩) := by
      rw [List.append_assoc, decode, Codec.decode_frame fresh first form]
    simp only [List.length_cons, List.replicate_succ, List.cons_append, run, perform, taken,
      ih others, List.map_cons, List.nil_append]

/-- Packets that were written into an empty buffer come off it as frames, one for each packet and in
their order, and nothing is left behind them. -/
theorem run_encodeAll {codec : Codec} {packets : List Packet} {stream : Bytes}
    (bounded : codec.maxPacketSize ≤ VarInt.maximum)
    (written : codec.encodeAll packets [] = (.ok (), stream)) (longest : Nat) :
    let receiver : Codec := { maxPacketSize := longest }
    ∃ frames, List.Forall₂ codec.SendsAs packets frames ∧
      (Intake.mk receiver stream).run (List.replicate (packets.length + 1) .decode) =
        (frames.map (fun frame => .ok (some frame)) ++ [.ok none], ⟨receiver, []⟩) := by
  intro receiver
  obtain ⟨frames, encoded, sent, listed, rfl⟩ := Codec.sendsAs_of_encodeAll bounded written
  have unlimited : ∀ frame ∈ frames, receiver.Accepts frame := fun frame _ => .inl rfl
  have received := run_frames rfl unlimited listed [] [.decode]
  rw [List.append_nil, ← sent.length_eq, ← List.replicate_succ'] at received
  exact ⟨frames, sent, received⟩

/-- A PUBLISH that no receiver accepts, a DISCONNECT whose text is too long for the peer, and a packet
that is passed on under the length of another one. -/
def mixture : List Packet :=
  [.publish { Connection.registering with dup := true },
    .disconnect (.withReason .protocolError "unexpected"),
    .other ⟨0xC3, 77⟩ [1, 2, 3]]

theorem run_mixture :
    ∃ stream frames, Codec.encodeAll { maxPacketSize := 11 } mixture [] = (.ok (), stream) ∧
      List.Forall₂ (Codec.SendsAs { maxPacketSize := 11 }) mixture frames ∧
      (Intake.mk {} stream).run [.decode, .decode, .decode, .decode] =
        (frames.map (fun frame => .ok (some frame)) ++ [.ok none], ⟨{}, []⟩) := by
  have bounded : (11 : Nat) ≤ VarInt.maximum := by decide
  have written : Codec.encodeAll { maxPacketSize := 11 } mixture [] =
      (.ok (), [0x38, 11, 0, 1, 0x61, 5, 1, 1, 0x23, 0, 1, 0x6F, 0x6E] ++ [0xE0, 2, 0x82, 0] ++
        [0xC3, 3, 1, 2, 3]) := by
    decide +kernel
  obtain ⟨frames, sent, received⟩ := run_encodeAll bounded written 0
  exact ⟨_, frames, written, sent, received⟩

end Intake
end Mqtt
