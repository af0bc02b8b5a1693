import Mqtt.Connection

/-!
What a single operation does to a connection: the cases of decoding, what every operation leaves
alone, and the calls of the transport among the events of an operation.
-/
namespace Mqtt

def Event.isCall : Event → Bool
  | send _ => true
  | close => true
  | notice _ => false

/-- The calls of the transport among some events, in their order. -/
def calls (events : List Event) : List Event := events.filter Event.isCall

@[simp] theorem calls_nil : calls [] = [] := rfl

@[simp] theorem calls_append (first second : List Event) :
    calls (first ++ second) = calls first ++ calls second := List.filter_append ..

@[simp] theorem calls_notice (notice : Notice) (events : List Event) :
    calls (.notice notice :: events) = calls events := rfl

@[simp] theorem calls_send (frame : Bytes) (events : List Event) :
    calls (.send frame :: events) = .send frame :: calls events := rfl

@[simp] theorem calls_close (events : List Event) :
    calls (.close :: events) = .close :: calls events := rfl

namespace Connection

namespace Outcome

variable {α β : Type} (outcome : Outcome α)

@[simp] theorem value_map (convert : α → β) : (outcome.map convert).value = convert outcome.value :=
  rfl

@[simp] theorem connection_map (convert : α → β) :
    (outcome.map convert).connection = outcome.connection := rfl

@[simp] theorem events_map (convert : α → β) : (outcome.map convert).events = outcome.events := rfl

@[simp] theorem connection_after (earlier : List Event) :
    (outcome.after earlier).connection = outcome.connection := rfl

@[simp] theorem events_after (earlier : List Event) :
    (outcome.after earlier).events = earlier ++ outcome.events := rfl

end Outcome

variable {connection : Connection} {buffer : Bytes}

/-- Nothing is decoded on a closed connection. -/
theorem decode_closed (closed : connection.closed) (buffer : Bytes) :
    connection.decode buffer = ⟨(none, buffer), connection, []⟩ := by
  rw [decode, if_pos closed]

theorem decode_error {error : WireError} (running : connection.closed = false)
    (failed : connection.codec.decode buffer = .error error) :
    connection.decode buffer =
      (connection.disconnect (framingViolation error).1 (framingViolation error).2).map
        fun _ => (none, buffer) := by
  rw [decode, if_neg (Bool.eq_false_iff.mp running), failed]

theorem decode_none {progress : Codec.Progress} (running : connection.closed = false)
    (found : connection.codec.decode buffer = .ok progress) (incomplete : progress.frame = none) :
    connection.decode buffer =
      ⟨(none, progress.buffer), { connection with codec := progress.codec }, []⟩ := by
  rw [decode, if_neg (Bool.eq_false_iff.mp running), found]
  simp only [incomplete]

theorem decode_some {progress : Codec.Progress} {frame : Frame}
    (running : connection.closed = false)
    (found : connection.codec.decode buffer = .ok progress) (complete : progress.frame = some frame) :
    connection.decode buffer =
      (({ connection with codec := progress.codec }.decodeFrame frame).after
        [.notice (.frameDecoded frame.header)]).map fun packet => (packet, progress.buffer) := by
  rw [decode, if_neg (Bool.eq_false_iff.mp running), found]
  simp only [complete]

/-- The four ways in which the next packet is asked for. -/
inductive DecodeStep (connection : Connection) (buffer : Bytes) :
    Outcome (Option Packet × Bytes) → Prop
  | closed (closed : connection.closed) :
      DecodeStep connection buffer ⟨(none, buffer), connection, []⟩
  | unframed {error : WireError} (running : connection.closed = false)
      (failed : connection.codec.decode buffer = .error error) :
      DecodeStep connection buffer
        ((connection.disconnect (framingViolation error).1 (framingViolation error).2).map
          fun _ => (none, buffer))
  | waiting {progress : Codec.Progress} (running : connection.closed = false)
      (found : connection.codec.decode buffer = .ok progress) (incomplete : progress.frame = none) :
      DecodeStep connection buffer
        ⟨(none, progress.buffer), { connection with codec := progress.codec }, []⟩
  | framed {progress : Codec.Progress} {frame : Frame} (running : connection.closed = false)
      (found : connection.codec.decode buffer = .ok progress)
      (complete : progress.frame = some frame) :
      DecodeStep connection buffer
        ((({ connection with codec := progress.codec }.decodeFrame frame).after
          [.notice (.frameDecoded frame.header)]).map fun packet => (packet, progress.buffer))

theorem decode_step (connection : Connection) (buffer : Bytes) :
    DecodeStep connection buffer (connection.decode buffer) := by
  cases running : connection.closed with
  | true =>
    rw [decode_closed running]
    exact .closed running
  | false =>
    cases answer : connection.codec.decode buffer with
    | error error =>
      rw [decode_error running answer]
      exact .unframed running answer
    | ok progress =>
      cases complete : progress.frame with
      | none =>
        rw [decode_none running answer complete]
        exact .waiting running answer complete
      | some frame =>
        rw [decode_some running answer complete]
        exact .framed running answer complete

theorem closed_disconnect (connection : Connection) (reason : ReasonCode) (text : String) :
    (connection.disconnect reason text).connection.closed := by
  unfold disconnect
  split
  · assumption
  · rfl

theorem codec_disconnect (connection : Connection) (reason : ReasonCode) (text : String) :
    (connection.disconnect reason text).connection.codec = connection.codec := by
  unfold disconnect
  split <;> rfl

/-- Only the decoder of frames moves the codec. -/
theorem codec_decodeFrame (connection : Connection) (frame : Frame) :
    (connection.decodeFrame frame).connection.codec = connection.codec := by
  unfold decodeFrame
  split
  · unfold decodePublish
    split
    · rfl
    · exact codec_disconnect _ _ _
  · split
    · unfold decodeDisconnect
      split
      · rfl
      · exact codec_disconnect _ _ _
    · rfl

/-- A frame that gives no packet is a violation. -/
theorem closed_of_decodeFrame_none {frame : Frame}
    (refused : (connection.decodeFrame frame).value = none) :
    (connection.decodeFrame frame).connection.closed := by
  unfold decodeFrame at refused ⊢
  split at refused
  · rename_i isPublish
    rw [if_pos isPublish]
    unfold decodePublish at refused ⊢
    split at refused
    · cases refused
    · exact closed_disconnect _ _ _
  · rename_i isOther
    rw [if_neg isOther]
    split at refused
    · rename_i isDisconnect
      rw [if_pos isDisconnect]
      unfold decodeDisconnect at refused ⊢
      split at refused
      · cases refused
      · exact closed_disconnect _ _ _
    · cases refused

end Connection
end Mqtt
