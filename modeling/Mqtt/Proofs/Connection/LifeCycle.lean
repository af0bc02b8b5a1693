import Mqtt.Proofs.Connection.Step
import Mqtt.Proofs.Disconnect.Writing
import Mqtt.Proofs.Framing
import Mqtt.Proofs.TopicAlias.Resolution

/-!
The life of a connection. Whatever is done to it, in any order, it closes at most once; the transport
is called in that step alone, for at most one packet and then for its end, and the topic aliases are
forgotten. Which operations close a connection is not covered.
-/
namespace Mqtt

namespace Context

theorem reset_setAlias (context : Context) (name : TopicAlias) (topic : Topic) :
    (context.setAlias name topic).reset = context.reset := by
  unfold reset setAlias
  cases context.aliases <;> simp [AliasTable.clear]

@[simp] theorem reset_reset (context : Context) : context.reset.reset = context.reset := by
  unfold reset
  cases context.aliases <;> simp [AliasTable.clear]

theorem Resolves.reset {context : Context} {topic : Option Topic} {name : Option TopicAlias}
    {resolved : TopicAlias.Resolution} (resolves : context.Resolves topic name resolved) :
    resolved.context.reset = context.reset := by
  cases resolves with
  | named => rfl
  | registered => exact reset_setAlias _ _ _
  | known => rfl

end Context

/-- A packet changes nothing of a context but the topics of its aliases. -/
theorem Publish.reset_decode (byte : UInt8) (frame : Bytes) (context : Context) :
    (decode byte frame context).2.reset = context.reset := by
  unfold decode
  split
  · rfl
  · split
    · rfl
    · rename_i found
      have kept := (Context.resolve_eq_ok_iff.mp found).reset
      split
      · exact kept
      · exact kept

namespace Connection

/-- What the transport is called for when a connection closes. -/
inductive Parting : List Event → Prop
  | silent : Parting [.close]
  | told {frame : Frame} {encoded : Bytes} (form : frame.Form encoded)
      (disconnect : frame.header.firstByte = 0xE0) : Parting [.send encoded, .close]

/-- A DISCONNECT that is sent is one complete packet. -/
private theorem parting_farewell (codec : Codec) (reason : ReasonCode) (text : String) :
    Parting (calls [farewell codec reason text, .close]) := by
  simp only [farewell]
  rcases written : codec.encode (.disconnect (.withReason reason text)) [] with ⟨result, output⟩
  cases result with
  | error error => exact .silent
  | ok =>
    obtain ⟨allowed, complete⟩ := Codec.complete_of_encode (congrArg Prod.fst written)
    have fits := Disconnect.size_withReason_le complete
    have content := (Disconnect.encoding_ends fits).writes complete
    obtain ⟨frame, encoded, again, form, firstByte, -⟩ :=
      Codec.encode_frame codec (.disconnect (.withReason reason text)) allowed fits content
    have same : encoded = output := congrArg Prod.snd ((again []).symm.trans written)
    rw [same] at form
    exact .told form firstByte

/-- The step of one operation, from a connection before it: the connection stays as it is, or it
closes. In both cases its context may only differ in the topics of its aliases. -/
inductive Moves {α : Type} (before : Connection) (step : Outcome α) : Prop
  | stays (same : step.connection.closed = before.closed) (silent : calls step.events = [])
      (kept : step.connection.context.reset = before.context.reset)
  | closes (running : before.closed = false) (closed : step.connection.closed)
      (parting : Parting (calls step.events))
      (forgotten : step.connection.context = before.context.reset)

section

variable {α β : Type} {before between : Connection} {step : Outcome α}

/-- The value of a step and its notices make no difference. -/
theorem Moves.seen {other : Outcome β} (moves : Moves before step)
    (same : other.connection = step.connection) (heard : calls other.events = calls step.events) :
    Moves before other := by
  cases moves with
  | stays unchanged silent kept =>
    apply Moves.stays
    · rw [same, unchanged]
    · rw [heard, silent]
    · rw [same, kept]
  | closes running closed parting forgotten =>
    apply Moves.closes running
    · rw [same, closed]
    · rw [heard]
      exact parting
    · rw [same, forgotten]

theorem Moves.map (moves : Moves before step) (convert : α → β) :
    Moves before (step.map convert) := moves.seen rfl rfl

theorem Moves.noticed (moves : Moves before step) (notice : Notice) :
    Moves before (step.after [.notice notice]) := moves.seen rfl rfl

/-- A change of the codec or of the topics in front of the step makes no difference. -/
theorem Moves.congr (moves : Moves between step) (same : between.closed = before.closed)
    (kept : between.context.reset = before.context.reset) : Moves before step := by
  cases moves with
  | stays same' silent kept' => exact .stays (same'.trans same) silent (kept'.trans kept)
  | closes running closed parting forgotten =>
    exact .closes (same.symm.trans running) closed parting (forgotten.trans kept)

end

theorem disconnect_moves (connection : Connection) (reason : ReasonCode) (text : String) :
    Moves connection (connection.disconnect reason text) := by
  unfold disconnect
  split
  · exact .stays rfl rfl rfl
  · rename_i running
    exact .closes (Bool.eq_false_iff.mpr running) rfl (parting_farewell _ _ _) rfl

theorem decodePublish_moves (connection : Connection) (flags : UInt8) (frame : Bytes) :
    Moves connection (connection.decodePublish flags frame) := by
  have kept := Publish.reset_decode flags frame connection.context
  unfold decodePublish
  split
  · rename_i found
    rw [found] at kept
    exact .stays rfl rfl kept
  · rename_i violation context found
    rw [found] at kept
    have moves : Moves connection
        (disconnect { connection with context := context } violation.reason violation.detail) :=
      (disconnect_moves _ _ _).congr rfl kept
    exact moves.map _

theorem decodeDisconnect_moves {connection : Connection} (running : connection.closed = false)
    (body : Bytes) : Moves connection (connection.decodeDisconnect body) := by
  unfold decodeDisconnect
  split
  · exact .closes running rfl .silent rfl
  · exact ((disconnect_moves _ _ _).noticed _).map _

theorem decodeFrame_moves (connection : Connection) (running : connection.closed = false)
    (frame : Frame) : Moves connection (connection.decodeFrame frame) := by
  unfold decodeFrame
  split
  · exact (decodePublish_moves _ _ _).map _
  · split
    · exact (decodeDisconnect_moves running _).map _
    · exact .stays rfl rfl rfl

theorem decode_moves (connection : Connection) (buffer : Bytes) :
    Moves connection (connection.decode buffer) := by
  have step := decode_step connection buffer
  generalize connection.decode buffer = outcome at step ⊢
  cases step with
  | closed => exact .stays rfl rfl rfl
  | unframed => exact (disconnect_moves _ _ _).map _
  | waiting => exact .stays rfl rfl rfl
  | @framed progress frame running =>
    have moves : Moves connection (decodeFrame { connection with codec := progress.codec } frame) :=
      (decodeFrame_moves { connection with codec := progress.codec } running frame).congr rfl rfl
    exact (moves.noticed _).map _

/-- What the owner of a connection may do to it. -/
inductive Operation
  | decode (buffer : Bytes)
  | decodePublish (flags : UInt8) (frame : Bytes)
  | disconnect (reason : ReasonCode) (text : String)
  | setAlias (name : TopicAlias) (topic : Topic)

def perform (connection : Connection) : Operation → Outcome Unit
  | .decode buffer => (connection.decode buffer).map fun _ => ()
  | .decodePublish flags frame => (connection.decodePublish flags frame).map fun _ => ()
  | .disconnect reason text => connection.disconnect reason text
  | .setAlias name topic => ⟨(), connection.setAlias name topic, []⟩

/-- Operations one after the other, with the events of all of them. -/
def run (connection : Connection) : List Operation → Outcome Unit
  | [] => ⟨(), connection, []⟩
  | operation :: rest =>
    let first := connection.perform operation
    (first.connection.run rest).after first.events

theorem perform_moves (connection : Connection) (operation : Operation) :
    Moves connection (connection.perform operation) := by
  cases operation with
  | decode buffer => exact (decode_moves connection buffer).map fun _ => ()
  | decodePublish flags frame => exact (decodePublish_moves connection flags frame).map fun _ => ()
  | disconnect reason text => exact disconnect_moves connection reason text
  | setAlias name topic => exact .stays rfl rfl (Context.reset_setAlias _ _ _)

theorem Moves.reset {α : Type} {before : Connection} {step : Outcome α} (moves : Moves before step) :
    step.connection.context.reset = before.context.reset := by
  cases moves with
  | stays same silent kept => exact kept
  | closes running closed parting forgotten => rw [forgotten, Context.reset_reset]

theorem run_reset (connection : Connection) (operations : List Operation) :
    (connection.run operations).connection.context.reset = connection.context.reset := by
  induction operations generalizing connection with
  | nil => rfl
  | cons operation rest ih => exact (ih _).trans (perform_moves connection operation).reset

/-- A closed connection stays closed, and the transport hears nothing more. -/
theorem run_closed {connection : Connection} (closed : connection.closed)
    (operations : List Operation) :
    (connection.run operations).connection.closed ∧ calls (connection.run operations).events = [] := by
  induction operations generalizing connection with
  | nil => exact ⟨closed, rfl⟩
  | cons operation rest ih =>
    cases perform_moves connection operation with
    | closes running => cases running.symm.trans closed
    | stays same silent kept =>
      obtain ⟨final, quiet⟩ := ih (same.trans closed)
      refine ⟨final, ?_⟩
      rw [run, Outcome.events_after, calls_append, silent, quiet, List.append_nil]

/-- Up to its end the transport hears nothing, and then of the end alone. -/
theorem run_running {connection : Connection} (running : connection.closed = false)
    (operations : List Operation) :
    ((connection.run operations).connection.closed = false ∧
        calls (connection.run operations).events = []) ∨
      ((connection.run operations).connection.closed ∧
        Parting (calls (connection.run operations).events)) := by
  induction operations generalizing connection with
  | nil => exact .inl ⟨running, rfl⟩
  | cons operation rest ih =>
    rw [run, Outcome.connection_after, Outcome.events_after, calls_append]
    cases perform_moves connection operation with
    | stays same silent kept =>
      rw [silent]
      exact ih (same.trans running)
    | closes before closed parting forgotten =>
      obtain ⟨final, quiet⟩ := run_closed closed rest
      rw [quiet, List.append_nil]
      exact .inr ⟨final, parting⟩

/-- A step in the life of a connection of a configuration. -/
structure LifeStep (config : Config) (before : Connection) (step : Outcome Unit) : Prop where
  final : before.closed → step.connection.closed
  silent : before.closed ∨ step.connection.closed = false → calls step.events = []
  parting : before.closed = false → step.connection.closed → Parting (calls step.events)
  forgotten : before.closed = false → step.connection.closed →
    step.connection.context = Context.ofConfig config

private theorem Moves.lifeStep {config : Config} {before : Connection} {step : Outcome Unit}
    (moves : Moves before step) (configured : before.context.reset = Context.ofConfig config) :
    LifeStep config before step := by
  cases moves with
  | stays same silent kept =>
    refine ⟨same.trans, fun _ => silent, fun running closed => ?_, fun running closed => ?_⟩
    all_goals cases running.symm.trans (same.symm.trans closed)
  | closes running closed parting forgotten =>
    refine ⟨fun _ => closed, fun ended => ?_, fun _ _ => parting, fun _ _ => forgotten.trans configured⟩
    rcases ended with before | after
    · cases running.symm.trans before
    · cases after.symm.trans closed

/-- At any time in the life of a connection: what the transport has heard so far, what the next
operation may do, and that nothing is decoded after the end. -/
theorem life_cycle (config : Config) (operations : List Operation) (next : Operation) :
    let reached := (ofConfig config).run operations
    ((reached.connection.closed = false ∧ calls reached.events = []) ∨
      (reached.connection.closed ∧ Parting (calls reached.events))) ∧
    LifeStep config reached.connection (reached.connection.perform next) ∧
    (reached.connection.closed → ∀ buffer,
      reached.connection.decode buffer = ⟨(none, buffer), reached.connection, []⟩) := by
  intro reached
  have configured : reached.connection.context.reset = Context.ofConfig config :=
    (run_reset _ operations).trans (Context.reset_ofConfig config)
  refine ⟨run_running rfl operations, ?_, fun closed buffer => decode_closed closed buffer⟩
  exact (perform_moves reached.connection next).lifeStep configured

end Connection
end Mqtt
