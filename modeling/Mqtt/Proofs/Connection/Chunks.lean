import Mqtt.Proofs.Connection.Step
import Mqtt.Proofs.Framing

/-!
Receiving bytes in pieces. Each piece is appended to what is left in the buffer, and packets are
asked for until there is none. Where the bytes are cut makes no difference to anything that comes
of it: the packets, the events, the connection and the rest of the buffer.
-/
namespace Mqtt.Connection

variable {connection : Connection} {buffer : Bytes}

/-- A packet takes something off what is there to be decoded. -/
theorem load_decode_lt {packet : Packet} (found : (connection.decode buffer).value.1 = some packet) :
    (connection.decode buffer).connection.codec.load (connection.decode buffer).value.2 <
      connection.codec.load buffer := by
  have step := decode_step connection buffer
  generalize connection.decode buffer = outcome at found step
  cases step with
  | closed => cases found
  | unframed => cases found
  | waiting => cases found
  | framed running answer complete =>
    simpa only [Outcome.connection_map, Outcome.connection_after, Outcome.value_map,
      codec_decodeFrame] using Codec.load_lt answer complete

/-- First one outcome and then another one, for what the first one has left. -/
def Outcome.join (first second : Outcome (List Packet × Bytes)) : Outcome (List Packet × Bytes) where
  value := (first.value.1 ++ second.value.1, second.value.2)
  connection := second.connection
  events := first.events ++ second.events

/-- Asks for packets until there is none. -/
def drain (connection : Connection) (buffer : Bytes) : Outcome (List Packet × Bytes) :=
  match _found : (connection.decode buffer).value.1 with
  | none => (connection.decode buffer).map fun answer => ([], answer.2)
  | some packet =>
    ((connection.decode buffer).map fun answer => ([packet], answer.2)).join
      ((connection.decode buffer).connection.drain (connection.decode buffer).value.2)
termination_by connection.codec.load buffer
decreasing_by exact load_decode_lt _found

/-- Takes in pieces one after the other, behind what is in the buffer. -/
def receive (connection : Connection) (buffer : Bytes) :
    List Bytes → Outcome (List Packet × Bytes)
  | [] => ⟨([], buffer), connection, []⟩
  | chunk :: rest =>
    let first := connection.drain (buffer ++ chunk)
    first.join (first.connection.receive first.value.2 rest)

theorem drain_of_none (done : (connection.decode buffer).value.1 = none) :
    connection.drain buffer = (connection.decode buffer).map fun answer => ([], answer.2) := by
  rw [drain]
  split
  · rfl
  · rename_i found
    rw [done] at found
    cases found

theorem drain_of_some {packet : Packet} (found : (connection.decode buffer).value.1 = some packet) :
    connection.drain buffer =
      ((connection.decode buffer).map fun answer => ([packet], answer.2)).join
        ((connection.decode buffer).connection.drain (connection.decode buffer).value.2) := by
  rw [drain]
  split
  · rename_i done
    rw [found] at done
    cases done
  · rename_i same
    cases found.symm.trans same
    rfl

/-- Later bytes stay behind a packet, and behind the end of the connection. -/
theorem decode_append_settled
    (settled : (connection.decode buffer).value.1.isSome ∨
      (connection.decode buffer).connection.closed) (rest : Bytes) :
    connection.decode (buffer ++ rest) =
      (connection.decode buffer).map fun answer => (answer.1, answer.2 ++ rest) := by
  have step := decode_step connection buffer
  generalize connection.decode buffer = outcome at settled step ⊢
  cases step with
  | closed closed =>
    rw [decode_closed closed]
    rfl
  | unframed running failed =>
    rw [decode_error running (Codec.decode_append_error failed rest)]
    rfl
  | waiting running =>
    rcases settled with given | closed
    · cases given
    · cases running.symm.trans closed
  | framed running found complete =>
    rw [decode_some running (Codec.decode_append_frame found complete rest) complete]
    rfl

/-- Asking too early does nothing that asking later would not do as well. -/
theorem decode_append_waiting (nothing : (connection.decode buffer).value.1 = none)
    (running : (connection.decode buffer).connection.closed = false) (rest : Bytes) :
    (connection.decode buffer).events = [] ∧
      connection.decode (buffer ++ rest) =
        (connection.decode buffer).connection.decode ((connection.decode buffer).value.2 ++ rest) := by
  have step := decode_step connection buffer
  generalize connection.decode buffer = outcome at nothing running step ⊢
  cases step with
  | closed closed => cases running.symm.trans closed
  | unframed => cases running.symm.trans (closed_disconnect _ _ _)
  | framed => cases running.symm.trans (closed_of_decodeFrame_none nothing)
  | @waiting progress before found incomplete =>
    have same := Codec.decode_append_none found incomplete rest
    refine ⟨rfl, ?_⟩
    cases answer : progress.codec.decode (progress.buffer ++ rest) with
    | error error =>
      have unmoved := Codec.decode_eq_of_error found incomplete answer
      rw [decode_error before (same.trans answer), decode_error running answer, unmoved]
    | ok later =>
      cases complete : later.frame with
      | none =>
        rw [decode_none before (same.trans answer) complete, decode_none running answer complete]
      | some frame =>
        rw [decode_some before (same.trans answer) complete, decode_some running answer complete]

private theorem join_assoc (first second third : Outcome (List Packet × Bytes)) :
    (first.join second).join third = first.join (second.join third) := by
  simp only [Outcome.join, List.append_assoc]

private theorem drain_congr {other : Connection} {otherBuffer : Bytes}
    (same : connection.decode buffer = other.decode otherBuffer) :
    connection.drain buffer = other.drain otherBuffer := by
  cases found : (connection.decode buffer).value.1 with
  | none =>
    have also : (other.decode otherBuffer).value.1 = none := same ▸ found
    rw [drain_of_none found, drain_of_none also, same]
  | some packet =>
    have also : (other.decode otherBuffer).value.1 = some packet := same ▸ found
    rw [drain_of_some found, drain_of_some also, same]

theorem drain_closed (closed : connection.closed) (buffer : Bytes) :
    connection.drain buffer = ⟨([], buffer), connection, []⟩ := by
  have step := decode_closed closed buffer
  rw [drain_of_none (by rw [step]), step]
  rfl

/-- Draining a longer buffer is draining its front first. -/
theorem drain_append (connection : Connection) (first second : Bytes) :
    connection.drain (first ++ second) =
      (connection.drain first).join
        ((connection.drain first).connection.drain ((connection.drain first).value.2 ++ second)) := by
  induction connection, first using drain.induct with
  | case1 connection first done =>
    rw [drain_of_none done]
    cases running : (connection.decode first).connection.closed with
    | true =>
      have extended := decode_append_settled (.inr running) second
      have still : (connection.decode (first ++ second)).value.1 = none := by
        rw [extended]
        exact done
      rw [drain_of_none still, extended, Outcome.connection_map, drain_closed running]
      simp [Outcome.join, Outcome.map]
    | false =>
      obtain ⟨silent, same⟩ := decode_append_waiting done running second
      rw [drain_congr same]
      simp [Outcome.join, silent]
  | case2 connection first packet found ih =>
    have extended := decode_append_settled (.inl (Option.isSome_of_eq_some found)) second
    have still : (connection.decode (first ++ second)).value.1 = some packet := by
      rw [extended]
      exact found
    rw [drain_of_some still, drain_of_some found, join_assoc, extended]
    dsimp only [Outcome.map] at ih ⊢
    rw [ih]
    rfl

/-- A first piece with others behind it is received as if all had come at once. -/
theorem receive_cons (connection : Connection) (buffer chunk : Bytes) (rest : List Bytes) :
    connection.receive buffer (chunk :: rest) =
      connection.drain (buffer ++ chunk ++ rest.flatten) := by
  induction rest generalizing connection buffer chunk with
  | nil => simp [receive, Outcome.join]
  | cons next rest ih =>
    rw [receive, ih, List.flatten_cons, List.append_assoc, ← drain_append]

private theorem drain_fresh_nil (config : Config) :
    (ofConfig config).drain [] = ⟨([], []), ofConfig config, []⟩ :=
  drain_of_none rfl

/-- Bytes may arrive in any pieces. -/
theorem receive_eq_receive_flatten (config : Config) (chunks : List Bytes) :
    (ofConfig config).receive [] chunks = (ofConfig config).receive [] [chunks.flatten] := by
  cases chunks with
  | nil =>
    rw [receive_cons]
    exact (drain_fresh_nil config).symm
  | cons chunk rest =>
    rw [receive_cons, receive_cons]
    simp only [List.flatten_cons, List.flatten_nil, List.append_nil, List.append_assoc]

end Mqtt.Connection
