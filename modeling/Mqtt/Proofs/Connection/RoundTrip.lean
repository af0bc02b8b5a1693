import Mqtt.Proofs.Connection.Step
import Mqtt.Proofs.Framing
import Mqtt.Proofs.TopicAlias.History

/-!
Sending PUBLISH packets and receiving them. The packets of a list are written one behind the other
into one buffer, and the connection at the other end is asked for a packet as many times; topic
aliases may be registered and used in between. Packets of other types are not covered.
-/
namespace Mqtt

/-- Writes packets one behind the other, up to the first that fails. -/
def Codec.encodeAll (codec : Codec) : List Packet → Bytes → Except WireError Unit × Bytes
  | [], output => (.ok (), output)
  | packet :: rest, output =>
    match codec.encode packet output with
    | (.ok (), extended) => codec.encodeAll rest extended
    | (.error error, extended) => (.error error, extended)

namespace Connection

/-- Asks for the next packet a number of times, each time with the bytes left by the time before. -/
def decodeTimes : Nat → Connection → Bytes → Outcome (List (Option Packet) × Bytes)
  | 0, connection, buffer => ⟨([], buffer), connection, []⟩
  | count + 1, connection, buffer =>
    let first := connection.decode buffer
    let others := decodeTimes count first.connection first.value.2
    { others with
      value := (first.value.1 :: others.value.1, others.value.2)
      events := first.events ++ others.events }

/-- A connection of a configuration that has received some packets and no part of another. -/
structure Received (config : Config) (before : List Publish) (connection : Connection) : Prop where
  running : connection.closed = false
  codec : connection.codec = (ofConfig config).codec
  context : connection.context.Remembers config before

theorem received_ofConfig (config : Config) : (ofConfig config).Received config [] where
  running := rfl
  codec := rfl
  context := Context.remembers_ofConfig config

private theorem firstByte_publish (flags : Publish.Flags) :
    ((PacketType.publish <<< 4) ||| flags.encode) >>> 4 = PacketType.publish ∧
      ((PacketType.publish <<< 4) ||| flags.encode) &&& 0b1111 = flags.encode := by
  obtain ⟨dup, qos, retain⟩ := flags
  cases dup <;> cases qos <;> cases retain <;> decide

theorem decodeFrame_publish {connection : Connection} {frame : Frame} {publish : Publish}
    {after : Context} (sent : frame.header.packetType = PacketType.publish)
    (denotes : Publish.Denotes frame.header.flags connection.context frame.body publish after) :
    connection.decodeFrame frame =
      ⟨some (.publish publish), { connection with context := after }, []⟩ := by
  simp only [decodeFrame, if_pos sent, decodePublish, denotes.decode]
  rfl

/-- A frame in front of the buffer is decoded, and nothing else is looked at. -/
theorem decode_frame {connection : Connection} {frame : Frame} {encoded : Bytes}
    (running : connection.closed = false) (fresh : connection.codec.pending = none)
    (accepted : connection.codec.Accepts frame) (form : frame.Form encoded) (rest : Bytes) :
    connection.decode (encoded ++ rest) =
      ((connection.decodeFrame frame).after [.notice (.frameDecoded frame.header)]).map
        fun packet => (packet, rest) := by
  rw [decode_some running (Codec.decode_frame fresh accepted form rest) rfl]

variable {config : Config} {before : List Publish} {connection : Connection} {publish : Publish}

/-- One packet is written, and is the next one received. -/
theorem Received.next (received : connection.Received config before)
    (unlimited : config.maxFrameSize = 0) (wellFormed : publish.WellFormed)
    (acceptable : publish.AcceptableTo config) (follows : Publish.FollowsUp before publish) :
    ∃ (encoded : Bytes) (header : FixedHeader) (next : Connection),
      (∀ output, ({} : Codec).encode (.publish publish) output = (.ok (), output ++ encoded)) ∧
      next.Received config (before ++ [publish]) ∧
      ∀ rest, connection.decode (encoded ++ rest) =
        ⟨(some (.publish publish), rest), next, [.notice (.frameDecoded header)]⟩ := by
  obtain ⟨after, remembers, resolves⟩ := received.context.resolves wellFormed acceptable follows
  have policy : connection.context.policy.validatePayload = config.validatePayload := by
    rw [received.context.policy]
  have content := wellFormed.encoding_writes wellFormed.flags_form resolves
    fun checked => acceptable.payload (policy ▸ checked)
  obtain ⟨frame, encoded, written, form, firstByte, denotes⟩ :=
    Codec.encode_frame {} (.publish publish) wellFormed.size wellFormed.size content
  obtain ⟨packetType, flags⟩ := firstByte_publish publish.flags
  have sent : frame.header.packetType = PacketType.publish := by
    rw [FixedHeader.packetType, firstByte]
    exact packetType
  have same : frame.header.flags = publish.flags.encode := by
    rw [FixedHeader.flags, firstByte]
    exact flags
  rw [← same] at denotes
  have fresh : connection.codec.pending = none := by
    rw [received.codec]
    rfl
  have accepted : connection.codec.Accepts frame := by
    left
    rw [received.codec]
    exact unlimited
  refine ⟨encoded, frame.header, { connection with context := after }, written, ?_, fun rest => ?_⟩
  · exact ⟨received.running, received.codec, remembers⟩
  · rw [decode_frame received.running fresh accepted form, decodeFrame_publish sent denotes]
    rfl

/-- Packets that are left to be sent after some are received one after the other. -/
private theorem Received.all (received : connection.Received config before)
    (unlimited : config.maxFrameSize = 0) {publishes : List Publish}
    (wellFormed : ∀ publish ∈ publishes, publish.WellFormed)
    (acceptable : ∀ publish ∈ publishes, publish.AcceptableTo config)
    (consistent : ∀ earlier publish later, publishes = earlier ++ publish :: later →
      Publish.FollowsUp (before ++ earlier) publish) :
    ∃ (encoded : Bytes) (last : Connection) (events : List Event),
      (∀ output, ({} : Codec).encodeAll (publishes.map .publish) output =
        (.ok (), output ++ encoded)) ∧
      last.Received config (before ++ publishes) ∧ calls events = [] ∧
      decodeTimes publishes.length connection encoded =
        ⟨(publishes.map fun publish => some (.publish publish), []), last, events⟩ := by
  induction publishes generalizing before connection with
  | nil =>
    refine ⟨[], connection, [], fun output => ?_, ?_, rfl, rfl⟩
    · rw [List.append_nil]
      rfl
    · rwa [List.append_nil]
  | cons publish rest ih =>
    have first := consistent [] publish rest rfl
    rw [List.append_nil] at first
    obtain ⟨head, header, next, written, advanced, decoded⟩ := received.next unlimited
      (wellFormed publish List.mem_cons_self) (acceptable publish List.mem_cons_self) first
    obtain ⟨tail, last, events, others, done, silent, remaining⟩ := ih advanced
      (fun later member => wellFormed later (List.mem_cons_of_mem publish member))
      (fun later member => acceptable later (List.mem_cons_of_mem publish member))
      (fun earlier later behind parts => by
        rw [List.append_assoc]
        exact consistent (publish :: earlier) later behind (congrArg (publish :: ·) parts))
    refine ⟨head ++ tail, last, .notice (.frameDecoded header) :: events, fun output => ?_, ?_, ?_,
      ?_⟩
    · simp only [List.map_cons, Codec.encodeAll, written, others, List.append_assoc]
    · rwa [List.append_assoc, List.singleton_append] at done
    · rw [calls_notice, silent]
    · simp only [List.length_cons, decodeTimes, decoded, remaining, List.map_cons,
        List.singleton_append]

/-- Well-formed packets that keep to their topic aliases come out as they were put in. The connection
is then as if nothing had been received, but for the topics that are registered. -/
theorem decodeTimes_encodeAll {config : Config} {publishes : List Publish}
    (unlimited : config.maxFrameSize = 0)
    (wellFormed : ∀ publish ∈ publishes, publish.WellFormed)
    (acceptable : ∀ publish ∈ publishes, publish.AcceptableTo config)
    (consistent : Publish.AliasConsistent publishes) :
    ∃ (encoded : Bytes) (last : Connection) (events : List Event),
      ({} : Codec).encodeAll (publishes.map .publish) [] = (.ok (), encoded) ∧
      decodeTimes publishes.length (ofConfig config) encoded =
        ⟨(publishes.map fun publish => some (.publish publish), []), last, events⟩ ∧
      last.Received config publishes ∧ calls events = [] := by
  obtain ⟨encoded, last, events, written, received, silent, decoded⟩ :=
    (received_ofConfig config).all unlimited wellFormed acceptable consistent
  exact ⟨encoded, last, events, written [], decoded, received, silent⟩

/-- A packet that registers the only alias for its topic. -/
def registering : Publish where
  topic := ⟨"a", by decide, by decide, by simp⟩
  payload := some (Utf8.encode "on")
  isNewAlias := true
  properties := { topicAlias := some ⟨1, by decide⟩, payloadFormat := some .utf8 }

/-- An acknowledged packet that is sent with the alias alone. -/
def reusing : Publish :=
  { registering with qos := .atLeastOnce, packetId := some 7, isNewAlias := false, payload := none }

private theorem wellFormed_registering : registering.WellFormed where
  unacknowledged _ := ⟨rfl, rfl⟩
  acknowledged level := absurd rfl level
  payload := by decide
  contentType := nofun
  correlationData := nofun
  userProperties := nofun
  subscriptionIds := nofun
  newAlias _ := rfl
  size := by decide

private theorem wellFormed_reusing : reusing.WellFormed where
  unacknowledged := nofun
  acknowledged _ := rfl
  payload := nofun
  contentType := nofun
  correlationData := nofun
  userProperties := nofun
  subscriptionIds := nofun
  newAlias := nofun
  size := by decide

/-- The second packet is decoded to the topic that only the first one carried. -/
theorem decodeTimes_registering_reusing :
    ∃ (encoded : Bytes) (last : Connection) (events : List Event),
      ({} : Codec).encodeAll [.publish registering, .publish reusing] [] = (.ok (), encoded) ∧
      decodeTimes 2 (ofConfig { topicAliasMaximum := 1, validatePayload := true }) encoded =
        ⟨([some (.publish registering), some (.publish reusing)], []), last, events⟩ ∧
      last.Received { topicAliasMaximum := 1, validatePayload := true } [registering, reusing] ∧
      calls events = [] := by
  have inside : ∀ name, registering.properties.topicAlias = some name → name.value.toNat ≤ 1 := by
    intro name found
    cases found
    decide
  apply @decodeTimes_encodeAll _ [registering, reusing] rfl
  · simp [wellFormed_registering, wellFormed_reusing]
  · simp only [List.mem_cons, List.not_mem_nil, or_false, forall_eq_or_imp, forall_eq]
    exact ⟨⟨inside, fun _ _ => ⟨"on", rfl⟩⟩, ⟨inside, fun _ _ => ⟨"", rfl⟩⟩⟩
  · intro before publish behind parts name found old
    rcases before with _ | ⟨first, _ | ⟨second, before⟩⟩
    · cases parts
      cases old
    · cases parts
      cases found
      rfl
    · simp at parts

end Connection
end Mqtt
