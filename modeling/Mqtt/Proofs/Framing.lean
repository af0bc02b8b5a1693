import Mqtt.Codec
import Mqtt.Proofs.Wire.Writing

/-!
Framing as it works on a buffer. A frame in front is taken off whatever follows it, and bytes that
arrive later only add to what is left: a call that found no frame can be made up for by one with the
codec and the bytes that it left. A packet is written as one frame.
-/
namespace Mqtt

/-- A first byte, the length of the body in any of its forms, and the body. -/
inductive Frame.Form : Frame → Bytes → Prop
  | bytes {firstByte : UInt8} {length body : Bytes} (declared : VarInt.Form body.length length) :
      Form ⟨⟨firstByte, body.length⟩, body⟩ (firstByte :: length ++ body)

theorem Frame.Form.remainingLength {frame : Frame} {encoded : Bytes} (form : frame.Form encoded) :
    frame.header.remainingLength = frame.body.length := by
  obtain ⟨declared⟩ := form
  rfl

namespace Codec

variable {codec : Codec}

/-- The body of the frame keeps to the limit of the receiver. -/
def Accepts (codec : Codec) (frame : Frame) : Prop :=
  codec.maxFrameSize = 0 ∨ frame.body.length ≤ codec.maxFrameSize

theorem header_append {buffer : Bytes} (settled : codec.header buffer ≠ .ok none) (rest : Bytes) :
    codec.header (buffer ++ rest) = codec.header buffer := by
  cases buffer with
  | nil => exact absurd rfl settled
  | cons firstByte behind =>
    have inner : VarInt.peek behind ≠ .ok none := by
      intro unfinished
      simp [header, unfinished] at settled
    simp only [List.cons_append, header, VarInt.peek_append inner rest]

/-- A header is at least a first byte and a byte of its length. -/
theorem header_width {buffer : Bytes} {header : FixedHeader} {width : Nat}
    (complete : codec.header buffer = .ok (some (header, width))) :
    2 ≤ width ∧ width ≤ buffer.length := by
  cases buffer with
  | nil => cases complete
  | cons firstByte behind =>
    simp only [Codec.header] at complete
    split at complete
    · cases complete
    · cases complete
    · rename_i length taken peeked
      split at complete
      · cases complete
      · cases complete
        unfold VarInt.peek at peeked
        split at peeked
        · rename_i read
          cases peeked
          have used := VarInt.decode_used read
          rw [List.length_cons]
          omega
        · cases peeked
        · cases peeked

theorem body_of_le {header : FixedHeader} {buffer : Bytes}
    (enough : header.remainingLength ≤ buffer.length) :
    codec.body header buffer =
      ⟨some ⟨header, buffer.take header.remainingLength⟩, { codec with pending := none },
        buffer.drop header.remainingLength⟩ := by
  simp only [body, List.length_take, Nat.min_eq_left enough, Nat.lt_irrefl, if_false]

theorem body_of_lt {header : FixedHeader} {buffer : Bytes}
    (short : buffer.length < header.remainingLength) :
    codec.body header buffer = ⟨none, { codec with pending := some header }, buffer⟩ := by
  simp only [body, List.length_take, Nat.min_eq_right (Nat.le_of_lt short), if_pos short]

theorem decode_pending {header : FixedHeader} (pending : codec.pending = some header)
    (buffer : Bytes) : codec.decode buffer = .ok (codec.body header buffer) := by
  simp only [decode, pending]

theorem decode_header {header : FixedHeader} {buffer : Bytes} {width : Nat}
    (fresh : codec.pending = none) (complete : codec.header buffer = .ok (some (header, width))) :
    codec.decode buffer = .ok (codec.body header (buffer.drop width)) := by
  simp only [decode, fresh, complete]

/-- A frame is taken off the front of the buffer, whatever follows it. -/
theorem decode_frame {frame : Frame} {encoded : Bytes} (fresh : codec.pending = none)
    (accepted : codec.Accepts frame) (form : frame.Form encoded) (rest : Bytes) :
    codec.decode (encoded ++ rest) = .ok ⟨some frame, codec, rest⟩ := by
  obtain @⟨firstByte, length, body, declared⟩ := form
  have read := VarInt.reader_recognizes.complete declared (body ++ rest)
  have inside : ¬ (codec.maxFrameSize ≠ 0 ∧ codec.maxFrameSize < body.length) := by
    rcases accepted with unlimited | small
    · exact fun refused => refused.1 unlimited
    · exact fun refused => Nat.not_lt.mpr small refused.2
  have complete : codec.header (firstByte :: length ++ body ++ rest) =
      .ok (some (⟨firstByte, body.length⟩, length.length + 1)) := by
    simp only [List.cons_append, List.append_assoc, header, VarInt.peek, read, if_neg inside]
  have behind : (firstByte :: length ++ body ++ rest).drop (length.length + 1) = body ++ rest := by
    simp
  have same : { codec with pending := none } = codec := by
    cases codec
    cases fresh
    rfl
  rw [decode_header fresh complete, behind, body_of_le (by simp), List.take_left, List.drop_left, same]

/-- Behind a header whose length has a form, as much of the content as the length says is the body. -/
theorem decode_declared {declared : Nat} (fresh : codec.pending = none)
    (accepted : codec.maxFrameSize = 0 ∨ declared ≤ codec.maxFrameSize)
    (fits : declared ≤ VarInt.maximum) (firstByte : UInt8) {content : Bytes}
    (enough : declared ≤ content.length) :
    codec.decode (firstByte :: VarInt.encode declared ++ content) =
      .ok ⟨some ⟨⟨firstByte, declared⟩, content.take declared⟩, codec, content.drop declared⟩ := by
  have length : (content.take declared).length = declared := by
    rw [List.length_take, Nat.min_eq_left enough]
  have form : Frame.Form ⟨⟨firstByte, declared⟩, content.take declared⟩
      (firstByte :: VarInt.encode declared ++ content.take declared) := by
    have bytes := @Frame.Form.bytes firstByte _ _
      (length.symm ▸ VarInt.form_encode fits : VarInt.Form (content.take declared).length _)
    rwa [length] at bytes
  have inside : codec.Accepts ⟨⟨firstByte, declared⟩, content.take declared⟩ := by
    rwa [Accepts, length]
  have taken := decode_frame fresh inside form (content.drop declared)
  rwa [List.append_assoc, List.take_append_drop] at taken

/-- A length without a form is a fault as soon as its first bytes are there. -/
theorem decode_overlong {declared : Nat} (fresh : codec.pending = none)
    (overlong : VarInt.maximum < declared) (firstByte : UInt8) (content : Bytes) :
    codec.decode (firstByte :: VarInt.encode declared ++ content) = .error .invalidLength := by
  have peeked : VarInt.peek (VarInt.encode declared ++ content) = .error .invalidLength := by
    simp only [VarInt.peek, VarInt.run_overlong overlong]
  simp only [decode, fresh, header, List.cons_append, peeked]

private theorem body_append {header : FixedHeader} {buffer : Bytes}
    (enough : header.remainingLength ≤ buffer.length) (rest : Bytes) :
    codec.body header (buffer ++ rest) =
      { codec.body header buffer with buffer := (codec.body header buffer).buffer ++ rest } := by
  have also : header.remainingLength ≤ (buffer ++ rest).length := by
    rw [List.length_append]
    omega
  rw [body_of_le enough, body_of_le also, List.take_append_of_le_length enough,
    List.drop_append_of_le_length enough]

private theorem le_of_body {header : FixedHeader} {buffer : Bytes} {frame : Frame}
    (found : (codec.body header buffer).frame = some frame) :
    header.remainingLength ≤ buffer.length := by
  apply Nat.le_of_not_lt
  intro short
  rw [body_of_lt short] at found
  cases found

private theorem lt_of_body {header : FixedHeader} {buffer : Bytes}
    (incomplete : (codec.body header buffer).frame = none) : buffer.length < header.remainingLength := by
  apply Nat.lt_of_not_le
  intro enough
  rw [body_of_le enough] at incomplete
  cases incomplete

/-- What a call that succeeds has seen: no complete header, or a header and what its body gave. -/
theorem decode_eq_ok {buffer : Bytes} {progress : Progress}
    (found : codec.decode buffer = .ok progress) :
    (codec.pending = none ∧ codec.header buffer = .ok none ∧ progress = ⟨none, codec, buffer⟩) ∨
      ∃ header behind, progress = codec.body header behind ∧
        ((codec.pending = some header ∧ behind = buffer) ∨
          ∃ width, codec.pending = none ∧ codec.header buffer = .ok (some (header, width)) ∧
            behind = buffer.drop width) := by
  cases pending : codec.pending with
  | some header =>
    rw [decode_pending pending] at found
    cases found
    exact .inr ⟨header, buffer, rfl, .inl ⟨rfl, rfl⟩⟩
  | none =>
    simp only [decode, pending] at found
    split at found
    · cases found
    · rename_i incomplete
      cases found
      exact .inl ⟨rfl, incomplete, rfl⟩
    · rename_i header width complete
      cases found
      exact .inr ⟨header, buffer.drop width, rfl, .inr ⟨width, rfl, complete, rfl⟩⟩

/-- Decoding only moves on in the buffer. -/
theorem maxPacketSize_of_decode {buffer : Bytes} {progress : Progress}
    (found : codec.decode buffer = .ok progress) :
    progress.codec.maxPacketSize = codec.maxPacketSize := by
  rcases decode_eq_ok found with ⟨-, -, rfl⟩ | ⟨header, behind, rfl, -⟩
  · rfl
  · unfold body
    dsimp only
    split <;> rfl

theorem decode_append_error {buffer : Bytes} {error : WireError}
    (failed : codec.decode buffer = .error error) (rest : Bytes) :
    codec.decode (buffer ++ rest) = .error error := by
  cases pending : codec.pending with
  | some header =>
    rw [decode_pending pending] at failed
    cases failed
  | none =>
    simp only [decode, pending] at failed ⊢
    split at failed
    · rename_i refused
      rw [header_append (refused ▸ nofun), refused]
      exact failed
    · cases failed
    · cases failed

/-- Bytes behind a complete frame are left alone. -/
theorem decode_append_frame {buffer : Bytes} {progress : Progress} {frame : Frame}
    (found : codec.decode buffer = .ok progress) (complete : progress.frame = some frame)
    (rest : Bytes) :
    codec.decode (buffer ++ rest) = .ok { progress with buffer := progress.buffer ++ rest } := by
  rcases decode_eq_ok found with ⟨-, -, rfl⟩ | ⟨header, behind, rfl, taken⟩
  · cases complete
  · have enough := le_of_body complete
    rcases taken with ⟨pending, rfl⟩ | ⟨width, fresh, seen, rfl⟩
    · rw [decode_pending pending, body_append enough]
    · have later : codec.header (buffer ++ rest) = .ok (some (header, width)) := by
        rw [header_append (seen ▸ nofun), seen]
      rw [decode_header fresh later, List.drop_append_of_le_length (header_width seen).2,
        body_append enough]

/-- A call that finds no frame may as well be left out. -/
theorem decode_append_none {buffer : Bytes} {progress : Progress}
    (found : codec.decode buffer = .ok progress) (incomplete : progress.frame = none)
    (rest : Bytes) :
    codec.decode (buffer ++ rest) = progress.codec.decode (progress.buffer ++ rest) := by
  rcases decode_eq_ok found with ⟨-, -, rfl⟩ | ⟨header, behind, rfl, taken⟩
  · rfl
  · have resumed : Codec.decode { codec with pending := some header } (behind ++ rest) =
        .ok (codec.body header (behind ++ rest)) := decode_pending rfl (behind ++ rest)
    rw [body_of_lt (lt_of_body incomplete), resumed]
    rcases taken with ⟨pending, rfl⟩ | ⟨width, fresh, seen, rfl⟩
    · rw [decode_pending pending]
    · have later : codec.header (buffer ++ rest) = .ok (some (header, width)) := by
        rw [header_append (seen ▸ nofun), seen]
      rw [decode_header fresh later, List.drop_append_of_le_length (header_width seen).2]

/-- A codec in the middle of a frame does not fail, so one that fails has not moved before. -/
theorem decode_eq_of_error {buffer later : Bytes} {progress : Progress} {error : WireError}
    (found : codec.decode buffer = .ok progress) (incomplete : progress.frame = none)
    (failed : progress.codec.decode later = .error error) : progress = ⟨none, codec, buffer⟩ := by
  rcases decode_eq_ok found with ⟨-, -, same⟩ | ⟨header, behind, rfl, -⟩
  · exact same
  · rw [body_of_lt (lt_of_body incomplete), decode_pending rfl] at failed
    cases failed

/-- What is there to be decoded: the bytes of the buffer, and a header that was taken already. -/
def load (codec : Codec) (buffer : Bytes) : Nat :=
  buffer.length + if codec.pending.isSome then 1 else 0

/-- A frame takes something away, also one without a body. -/
theorem load_lt {buffer : Bytes} {progress : Progress} {frame : Frame}
    (found : codec.decode buffer = .ok progress) (complete : progress.frame = some frame) :
    progress.codec.load progress.buffer < codec.load buffer := by
  rcases decode_eq_ok found with ⟨-, -, rfl⟩ | ⟨header, behind, rfl, taken⟩
  · cases complete
  · rw [body_of_le (le_of_body complete)]
    unfold load
    rcases taken with ⟨pending, rfl⟩ | ⟨width, fresh, seen, rfl⟩
    · simp only [pending, List.length_drop, Option.isSome_none, Option.isSome_some,
        Bool.false_eq_true, if_false, if_true]
      omega
    · have bounds := header_width seen
      simp only [fresh, List.length_drop, Option.isSome_none, Bool.false_eq_true, if_false]
      omega

theorem limit_le (bounded : codec.maxPacketSize ≤ VarInt.maximum) : codec.limit ≤ VarInt.maximum := by
  unfold limit
  split
  · exact Nat.le_refl _
  · exact bounded

theorem encode_exceeded {packet : Packet} (exceeded : codec.limit < packet.size codec.limit)
    (output : Bytes) : codec.encode packet output = (.error .maxSizeExceeded, output) := by
  rw [encode, encoding, if_pos exceeded, Encoding.bytes_fail, List.append_nil]
  rfl

/-- The fixed header does not fail, so it is written of every packet that keeps to the limit. -/
theorem encode_of_le {packet : Packet} (allowed : packet.size codec.limit ≤ codec.limit)
    (output : Bytes) :
    codec.encode packet output =
      ((packet.content (packet.size codec.limit)).result,
        output ++ (packet.firstByte :: VarInt.encode (packet.size codec.limit) ++
          (packet.content (packet.size codec.limit)).bytes)) := by
  rw [encode, encoding, if_neg (Nat.not_lt.mpr allowed)]
  rfl

/-- A packet whose content can be written is written as one frame. -/
theorem encode_frame (codec : Codec) (packet : Packet) {form : Bytes → Prop}
    (allowed : packet.size codec.limit ≤ codec.limit)
    (fits : packet.size codec.limit ≤ VarInt.maximum)
    (content : (packet.content (packet.size codec.limit)).Writes form
      (packet.size codec.limit)) :
    ∃ (frame : Frame) (encoded : Bytes),
      (∀ output, codec.encode packet output = (.ok (), output ++ encoded)) ∧
      frame.Form encoded ∧ frame.header.firstByte = packet.firstByte ∧ form frame.body := by
  have header := (Encoding.uint8_writes packet.firstByte).append (Encoding.varInt_writes fits)
  have written := header.append content.withLength
  obtain ⟨_, body, parts, ⟨_, length, rfl, rfl, declared⟩, spelled, size⟩ := written.spelled
  rw [← size] at declared
  refine ⟨⟨⟨packet.firstByte, body.length⟩, body⟩, _, ?_, .bytes declared, rfl, spelled⟩
  intro output
  rw [encode, encoding, if_neg (Nat.not_lt.mpr allowed), Packet.encoding, Encoding.result,
    written.complete, parts]
  rfl

/-- A packet that was written kept to the limit, and its content came to its end. -/
theorem complete_of_encode {packet : Packet} {output : Bytes}
    (written : (codec.encode packet output).1 = .ok ()) :
    packet.size codec.limit ≤ codec.limit ∧
      (packet.content (packet.size codec.limit)).error = none := by
  by_cases exceeded : codec.limit < packet.size codec.limit
  · rw [encode_exceeded exceeded] at written
    cases written
  · have allowed := Nat.le_of_not_lt exceeded
    rw [encode_of_le allowed] at written
    exact ⟨allowed, Encoding.result_eq_ok_iff.mp written⟩

end Codec
end Mqtt
