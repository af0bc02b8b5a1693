import Mqtt.Proofs.Connection.LifeCycle
import Mqtt.Proofs.Publish.Grammar
import Mqtt.Proofs.TopicAlias.History

/-!
Topic aliases over the life of a connection. While a connection runs, its table holds what the PUBLISH
packets that it has handed out have registered, whatever else was received in between, and a packet
that leaves its topic to an alias is handed out with the topic registered last. Topics that the owner
of a connection registers are not covered.
-/
namespace Mqtt

/-- The table that a receiver with a configuration keeps after some packets: a slot for each alias,
with the topic that was registered last. -/
inductive AliasTable.Keeps (config : Config) (before : List Publish) : Option AliasTable → Prop
  | disabled (unused : config.topicAliasMaximum = 0) : Keeps config before none
  | enabled {table : AliasTable} (used : config.topicAliasMaximum ≠ 0)
      (size : table.slots.size = config.topicAliasMaximum.toNat)
      (slots : ∀ name : TopicAlias, name.value.toNat ≤ config.topicAliasMaximum.toNat →
        table.slots[name.slot]? = some (Publish.latestTopic before name)) :
      Keeps config before (some table)

namespace Context

variable {config : Config} {before : List Publish} {context : Context}

theorem Remembers.keeps (remembers : context.Remembers config before)
    (configured : context.reset = ofConfig config) :
    AliasTable.Keeps config before context.aliases := by
  have shape : context.aliases.map AliasTable.clear = (ofConfig config).aliases :=
    congrArg Context.aliases configured
  unfold ofConfig at shape
  cases found : context.aliases with
  | none =>
    rw [found] at shape
    split at shape
    · rename_i unused
      exact .disabled unused
    · cases shape
  | some table =>
    rw [found] at shape
    split at shape
    · cases shape
    · rename_i used
      have size : table.size = config.topicAliasMaximum.toNat := by
        rw [← AliasTable.size_clear, Option.some.inj shape, AliasTable.size_empty]
      refine .enabled used size fun name inside => ?_
      have slot : name.slot < table.slots.size :=
        AliasTable.contains_iff_slot.mp (decide_eq_true (size ▸ inside))
      have topic := remembers.topics name
      rw [topicOf?, found, Option.bind_some, AliasTable.get?, Array.getElem?_eq_getElem slot,
        Option.join_some] at topic
      rw [Array.getElem?_eq_getElem slot, topic]

end Context

namespace Connection

/-- Asks for the next packet once for each piece of input, which is appended to what the time before
has left. A piece may be empty. -/
def decodeEach (connection : Connection) (buffer : Bytes) :
    List Bytes → Outcome (List (Option Packet) × Bytes)
  | [] => ⟨([], buffer), connection, []⟩
  | chunk :: rest =>
    let first := connection.decode (buffer ++ chunk)
    let others := first.connection.decodeEach first.value.2 rest
    { others with
      value := (first.value.1 :: others.value.1, others.value.2)
      events := first.events ++ others.events }

/-- The PUBLISH packets among some answers. -/
def publishes (answers : List (Option Packet)) : List Publish :=
  answers.filterMap fun
    | some (.publish publish) => some publish
    | _ => none

/-- A connection of a configuration that has handed out some PUBLISH packets. -/
structure Tracks (config : Config) (before : List Publish) (connection : Connection) : Prop where
  inside : ∀ publish ∈ before, ∀ name, publish.properties.topicAlias = some name →
    name.value.toNat ≤ config.topicAliasMaximum.toNat
  consistent : Publish.AliasConsistent before
  remembers : connection.closed = false → connection.context.Remembers config before

theorem tracks_ofConfig (config : Config) : (ofConfig config).Tracks config [] where
  inside publish member := by cases member
  consistent before publish behind parts := by simp at parts
  remembers _ := Context.remembers_ofConfig config

variable {config : Config} {before : List Publish} {connection : Connection}

/-- A connection that is closed has nothing to keep. -/
theorem Tracks.ended {next : Connection} (tracks : connection.Tracks config before)
    (closed : next.closed) : next.Tracks config before where
  inside := tracks.inside
  consistent := tracks.consistent
  remembers running := by cases running.symm.trans closed

theorem Tracks.moved (tracks : connection.Tracks config before) (codec : Codec) :
    Tracks config before { connection with codec := codec } :=
  ⟨tracks.inside, tracks.consistent, tracks.remembers⟩

/-- An answer that is no PUBLISH adds nothing to the history. -/
theorem Tracks.silent (tracks : connection.Tracks config before) {answer : Option Packet}
    (other : publishes [answer] = []) : connection.Tracks config (before ++ publishes [answer]) := by
  rwa [other, List.append_nil]

/-- A PUBLISH is added to the history by what it resolved to. -/
theorem Tracks.resolved (tracks : connection.Tracks config before)
    (running : connection.closed = false) {topic : Option Topic} {publish : Publish} {after : Context}
    (resolves : connection.context.Resolves topic publish.properties.topicAlias
      ⟨publish.topic, publish.isNewAlias, after⟩) :
    Tracks config (before ++ [publish]) { connection with context := after } where
  inside other member name named := by
    rcases List.mem_append.mp member with earlier | last
    · exact tracks.inside other earlier name named
    · rw [List.mem_singleton.mp last] at named
      rw [named] at resolves
      exact (tracks.remembers running).le_maximum resolves
  consistent := tracks.consistent.append ((tracks.remembers running).followsUp resolves)
  remembers _ := (tracks.remembers running).append resolves

/-- The topics of a running connection change with the PUBLISH packets it hands out. -/
theorem Tracks.decodeFrame (tracks : connection.Tracks config before)
    (running : connection.closed = false) (frame : Frame) :
    (connection.decodeFrame frame).connection.Tracks config
      (before ++ publishes [(connection.decodeFrame frame).value]) := by
  unfold Connection.decodeFrame
  split
  · unfold decodePublish
    split
    · rename_i decoded
      obtain ⟨topic, resolves⟩ := (Publish.denotes_of_decode decoded).resolves
      exact tracks.resolved running resolves
    · exact (tracks.ended (closed_disconnect _ _ _)).silent rfl
  · split
    · unfold decodeDisconnect
      split
      · exact (tracks.ended rfl).silent rfl
      · exact (tracks.ended (closed_disconnect _ _ _)).silent rfl
    · exact tracks.silent rfl

theorem Tracks.decode (tracks : connection.Tracks config before) (buffer : Bytes) :
    (connection.decode buffer).connection.Tracks config
      (before ++ publishes [(connection.decode buffer).value.1]) := by
  have step := decode_step connection buffer
  generalize connection.decode buffer = outcome at step ⊢
  cases step with
  | closed => exact tracks.silent rfl
  | unframed => exact (tracks.ended (closed_disconnect _ _ _)).silent rfl
  | @waiting progress => exact (tracks.moved progress.codec).silent rfl
  | @framed progress frame running => exact (tracks.moved progress.codec).decodeFrame running frame

theorem Tracks.decodeEach (tracks : connection.Tracks config before) (buffer : Bytes)
    (chunks : List Bytes) :
    (connection.decodeEach buffer chunks).connection.Tracks config
      (before ++ publishes (connection.decodeEach buffer chunks).value.1) := by
  induction chunks generalizing before connection buffer with
  | nil => simpa [Connection.decodeEach, publishes] using tracks
  | cons chunk rest ih =>
    have later := ih (tracks.decode (buffer ++ chunk)) (connection.decode (buffer ++ chunk)).value.2
    rw [List.append_assoc, publishes, publishes, ← List.filterMap_append] at later
    exact later

theorem reset_decodeEach (connection : Connection) (buffer : Bytes) (chunks : List Bytes) :
    (connection.decodeEach buffer chunks).connection.context.reset = connection.context.reset := by
  induction chunks generalizing connection buffer with
  | nil => rfl
  | cons chunk rest ih => exact (ih _ _).trans (decode_moves connection (buffer ++ chunk)).reset

/-- However a stream comes in, the aliases of the packets handed out are within the maximum, aliases
that stand alone mean the topic registered last, and a connection that runs knows these topics. -/
theorem decodeEach_aliases (config : Config) (chunks : List Bytes) :
    let reached := (ofConfig config).decodeEach [] chunks
    (∀ publish ∈ publishes reached.value.1, ∀ name, publish.properties.topicAlias = some name →
      1 ≤ name.value.toNat ∧ name.value.toNat ≤ config.topicAliasMaximum.toNat) ∧
    Publish.AliasConsistent (publishes reached.value.1) ∧
    (reached.connection.closed = false →
      AliasTable.Keeps config (publishes reached.value.1) reached.connection.context.aliases) := by
  intro reached
  have tracks := (tracks_ofConfig config).decodeEach [] chunks
  rw [List.nil_append] at tracks
  have configured : reached.connection.context.reset = Context.ofConfig config :=
    (reset_decodeEach _ [] chunks).trans (Context.reset_ofConfig config)
  refine ⟨fun publish member name named => ?_, tracks.consistent, fun running => ?_⟩
  · exact ⟨name.value_pos, tracks.inside publish member name named⟩
  · exact (tracks.remembers running).keeps configured

end Connection
end Mqtt
