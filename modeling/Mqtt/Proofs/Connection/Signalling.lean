import Mqtt.Proofs.Connection.Step
import Mqtt.Proofs.Disconnect.Delivery
import Mqtt.Proofs.Publish.Violations

/-!
How a violation is signalled to the peer. Each is answered by one DISCONNECT with its reason code and,
where the peer accepts packets of that size, with its text; nothing else makes a connection send.
What the owner of a connection has it send is not covered.
-/
namespace Mqtt

namespace Disconnect

variable {reason : ReasonCode} {text : String}

theorem sendable_withReason (sendable : SendableText text) :
    (withReason reason text).Sendable where
  serverReference := nofun
  reasonString other found := by
    cases found
    exact sendable
  userProperties := nofun

theorem size_withReason_le_of_sendable (sendable : SendableText text) (limit : Nat) :
    (withReason reason text).size limit ≤ VarInt.maximum := by
  have field := VarInt.size_le_four (text.utf8ByteSize + 3)
  have short := sendable.short
  simp only [maximumFieldLength] at short
  rw [size_withReason, VarInt.maximum]
  split <;> omega

end Disconnect

namespace Connection

/-- What the next bytes do wrong, in the words that the peer is told. -/
inductive Violates (connection : Connection) (buffer : Bytes) : ReasonCode → String → Prop
  | tooLarge (failed : connection.codec.decode buffer = .error .maxSizeExceeded) :
      Violates connection buffer .packetTooLarge "packet too large"
  | unframed {error : WireError} (failed : connection.codec.decode buffer = .error error)
      (other : error ≠ .maxSizeExceeded) :
      Violates connection buffer .malformedPacket "malformed remaining length"
  | disconnect {progress : Codec.Progress} {frame : Frame} {error : WireError}
      (found : connection.codec.decode buffer = .ok progress)
      (complete : progress.frame = some frame)
      (sent : frame.header.packetType = PacketType.disconnect)
      (refused : Disconnect.decode frame.body = .error error) :
      Violates connection buffer .malformedPacket "malformed DISCONNECT"
  | publish {progress : Codec.Progress} {frame : Frame} {violation : Violation} {after : Context}
      (found : connection.codec.decode buffer = .ok progress)
      (complete : progress.frame = some frame)
      (sent : frame.header.packetType = PacketType.publish)
      (refused : Publish.decode frame.header.flags frame.body connection.context =
        (.error violation, after)) :
      Violates connection buffer violation.reason violation.detail

/-- What the transport hears of a violation when packets may take up to `longest` bytes, zero standing
for any number of bytes. -/
structure Signals (longest : Nat) (reason : ReasonCode) (text : String) (heard : List Event) :
    Prop where
  full : longest = 0 ∨ text.utf8ByteSize + 8 ≤ longest →
    ∃ encoded, heard = [.send encoded, .close] ∧
      (Disconnect.withReason reason text).IsReadFrom encoded
  bare : 2 ≤ longest → longest < text.utf8ByteSize + 8 →
    ∃ encoded, heard = [.send encoded, .close] ∧
      Disconnect.IsReadFrom { reason := reason } encoded
  silent : longest = 1 → heard = [.close]

variable {connection : Connection} {buffer : Bytes} {reason : ReasonCode} {text : String}

/-- With room for a reason code the peer is told, and reads as much as there is room for. -/
private theorem calls_farewell_of_le (codec : Codec) (sendable : SendableText text)
    (room : 2 ≤ codec.limit) :
    ∃ encoded, calls [farewell codec reason text, .close] = [.send encoded, .close] ∧
      ((Disconnect.withReason reason text).trim (codec.limit - 5)).IsReadFrom encoded := by
  have allowed := (Disconnect.size_le_iff (.withReason reason text) codec.limit).mpr room
  obtain ⟨encoded, written, read⟩ := Codec.encode_disconnect
    (Disconnect.sendable_withReason sendable) allowed
    (Disconnect.size_withReason_le_of_sendable sendable codec.limit)
  refine ⟨encoded, ?_, read⟩
  simp [farewell, written []]

/-- Without room for a reason code nothing is sent. -/
private theorem calls_farewell_of_lt {codec : Codec} (short : codec.limit < 2) :
    calls [farewell codec reason text, .close] = [.close] := by
  have exceeded : codec.limit < (Disconnect.withReason reason text).size codec.limit := by
    apply Nat.lt_of_not_le
    intro allowed
    exact Nat.not_le.mpr short
      ((Disconnect.size_le_iff (.withReason reason text) codec.limit).mp allowed)
  have refused : codec.encode (.disconnect (.withReason reason text)) [] =
      (.error .maxSizeExceeded, []) := Codec.encode_exceeded exceeded []
  simp [farewell, refused]

/-- What a DISCONNECT with this reason and text makes the transport hear. -/
theorem signals_farewell (codec : Codec) (sendable : SendableText text) :
    Signals codec.maxPacketSize reason text (calls [farewell codec reason text, .close]) where
  full room := by
    have short := sendable.short
    simp only [maximumFieldLength] at short
    have limited : text.utf8ByteSize + 8 ≤ codec.limit := by
      unfold Codec.limit VarInt.maximum
      split <;> omega
    obtain ⟨encoded, heard, read⟩ := calls_farewell_of_le codec sendable (by omega)
    have fits : (Disconnect.Property.reasonString text).size ≤ codec.limit - 5 := by
      rw [Disconnect.size_reasonString]
      omega
    rw [Disconnect.trim_withReason, if_pos fits] at read
    exact ⟨encoded, heard, read⟩
  bare some more := by
    have limited : codec.limit = codec.maxPacketSize := if_neg (by omega)
    obtain ⟨encoded, heard, read⟩ := calls_farewell_of_le codec sendable (limited ▸ some)
    have large : ¬ (Disconnect.Property.reasonString text).size ≤ codec.limit - 5 := by
      rw [Disconnect.size_reasonString]
      omega
    rw [Disconnect.trim_withReason, if_neg large] at read
    exact ⟨encoded, heard, read⟩
  silent one := by
    apply calls_farewell_of_lt
    rw [Codec.limit, one]
    decide

/-- A running connection that disconnects is closed, and the peer is told once. -/
theorem disconnect_signals (reason : ReasonCode) (running : connection.closed = false)
    (sendable : SendableText text) :
    (connection.disconnect reason text).connection.closed ∧
      Signals connection.codec.maxPacketSize reason text
        (calls (connection.disconnect reason text).events) := by
  rw [disconnect, if_neg (Bool.eq_false_iff.mp running)]
  exact ⟨rfl, signals_farewell connection.codec sendable⟩

theorem Violates.sendable (violates : Violates connection buffer reason text) :
    SendableText text := by
  cases violates with
  | tooLarge | unframed | disconnect => exact ⟨by decide, by decide⟩
  | publish _ _ _ refused => exact Violation.sendable_of_mem_all (Publish.mem_all_of_decode refused)

theorem Violates.short (violates : Violates connection buffer reason text) :
    text.utf8ByteSize < 125 := by
  cases violates with
  | tooLarge | unframed | disconnect => decide
  | publish _ _ _ refused => exact Violation.short_of_mem_all (Publish.mem_all_of_decode refused)

/-- A violation is answered by disconnecting. Only what the frame moved in the codec and the context
may differ by then. -/
theorem Violates.decode (violates : Violates connection buffer reason text)
    (running : connection.closed = false) :
    ∃ between : Connection, between.closed = false ∧
      between.codec.maxPacketSize = connection.codec.maxPacketSize ∧
      (connection.decode buffer).value.1 = none ∧
      (connection.decode buffer).connection = (between.disconnect reason text).connection ∧
      calls (connection.decode buffer).events = calls (between.disconnect reason text).events := by
  cases violates with
  | tooLarge failed =>
    refine ⟨connection, running, rfl, ?_⟩
    rw [decode_error running failed]
    exact ⟨rfl, rfl, rfl⟩
  | @unframed error failed other =>
    have violation : framingViolation error = (.malformedPacket, "malformed remaining length") := by
      cases error with
      | maxSizeExceeded => exact absurd rfl other
      | _ => rfl
    refine ⟨connection, running, rfl, ?_⟩
    rw [decode_error running failed, violation]
    exact ⟨rfl, rfl, rfl⟩
  | @disconnect progress frame error found complete sent refused =>
    have isOther : frame.header.packetType ≠ PacketType.publish := by
      rw [sent]
      decide
    refine ⟨{ connection with codec := progress.codec }, running,
      Codec.maxPacketSize_of_decode found, ?_⟩
    rw [decode_some running found complete, decodeFrame, if_neg isOther, if_pos sent,
      decodeDisconnect, refused]
    exact ⟨rfl, rfl, rfl⟩
  | @publish progress frame violation after found complete sent refused =>
    refine ⟨{ connection with codec := progress.codec, context := after }, running,
      Codec.maxPacketSize_of_decode found, ?_⟩
    rw [decode_some running found complete, decodeFrame, if_pos sent, decodePublish, refused]
    exact ⟨rfl, rfl, rfl⟩

/-- A connection without a violation goes on in silence, or ends with the peer's own DISCONNECT. -/
theorem decode_of_not_violates (running : connection.closed = false)
    (correct : ∀ reason text, ¬ Violates connection buffer reason text) :
    ((connection.decode buffer).connection.closed = false ∧
        calls (connection.decode buffer).events = []) ∨
      ∃ packet, (connection.decode buffer).value.1 = some (.disconnect packet) ∧
        (connection.decode buffer).connection.closed ∧
        calls (connection.decode buffer).events = [.close] := by
  have step := decode_step connection buffer
  generalize connection.decode buffer = outcome at step ⊢
  cases step with
  | closed closed => cases running.symm.trans closed
  | @unframed error _ failed =>
    by_cases large : error = .maxSizeExceeded
    · exact absurd (.tooLarge (large ▸ failed)) (correct _ _)
    · exact absurd (.unframed failed large) (correct _ _)
  | waiting => exact .inl ⟨running, rfl⟩
  | @framed progress frame _ found complete =>
    unfold decodeFrame
    split
    · rename_i sent
      unfold decodePublish
      split
      · exact .inl ⟨running, rfl⟩
      · rename_i refused
        exact absurd (.publish found complete sent refused) (correct _ _)
    · split
      · rename_i sent
        unfold decodeDisconnect
        split
        · exact .inr ⟨_, rfl, rfl, rfl⟩
        · rename_i refused
          exact absurd (.disconnect found complete sent refused) (correct _ _)
      · exact .inl ⟨running, rfl⟩

/-- Every violation is signalled once, and nothing else is sent while decoding. -/
theorem decode_signals (running : connection.closed = false) (buffer : Bytes) :
    (∀ reason text, Violates connection buffer reason text →
      (connection.decode buffer).value.1 = none ∧
      (connection.decode buffer).connection.closed ∧
      Signals connection.codec.maxPacketSize reason text
        (calls (connection.decode buffer).events)) ∧
    ((∀ reason text, ¬ Violates connection buffer reason text) →
      ((connection.decode buffer).connection.closed = false ∧
          calls (connection.decode buffer).events = []) ∨
        ∃ packet, (connection.decode buffer).value.1 = some (.disconnect packet) ∧
          (connection.decode buffer).connection.closed ∧
          calls (connection.decode buffer).events = [.close]) := by
  refine ⟨fun reason text violates => ?_, decode_of_not_violates running⟩
  obtain ⟨between, stillRunning, longest, nothing, same, heard⟩ := violates.decode running
  obtain ⟨closed, signals⟩ := disconnect_signals reason stillRunning violates.sendable
  rw [longest, ← heard] at signals
  exact ⟨nothing, same ▸ closed, signals⟩

/-- A PUBLISH with both QoS bits set. The peer accepts packets that just hold the text of the answer. -/
theorem decode_signals_wrongQoS :
    let connection := ofConfig { maxPacketSize := 17 }
    connection.closed = false ∧ (connection.decode [0x36, 0]).value.1 = none ∧
      ∃ encoded, calls (connection.decode [0x36, 0]).events = [.send encoded, .close] ∧
        (Disconnect.withReason .malformedPacket "wrong QoS").IsReadFrom encoded := by
  intro connection
  have violates : Violates connection [0x36, 0] Violation.wrongQoS.reason Violation.wrongQoS.detail :=
    .publish rfl rfl rfl rfl
  obtain ⟨nothing, -, signals⟩ := (decode_signals rfl [0x36, 0]).1 _ _ violates
  exact ⟨rfl, nothing, signals.full (.inr (by decide))⟩

end Connection
end Mqtt
