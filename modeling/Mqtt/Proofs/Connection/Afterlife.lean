import Mqtt.Proofs.Connection.LifeCycle
import Mqtt.Proofs.Publish.Refusal

/-!
The topic aliases of a connection that is closed. They are forgotten when it closes, but its owner can
still give it the frames of PUBLISH packets, and these register their aliases as before: what a closed
connection remembers is what it was given after its end, and nothing else.
-/
namespace Mqtt

namespace Context

/-- Registers topics for aliases, one after the other. -/
def registerAll (context : Context) (registrations : List (TopicAlias × Topic)) : Context :=
  registrations.foldl (fun context registration => context.setAlias registration.1 registration.2)
    context

theorem registerAll_append (context : Context) (first second : List (TopicAlias × Topic)) :
    context.registerAll (first ++ second) = (context.registerAll first).registerAll second :=
  List.foldl_append ..

theorem setAlias_of_lt {context : Context} {name : TopicAlias}
    (outside : context.aliasLimit < name.value.toNat) (topic : Topic) :
    context.setAlias name topic = context := by
  obtain ⟨aliases, policy⟩ := context
  cases aliases with
  | none => rfl
  | some table =>
    have missing : table.contains name = false := by
      rw [AliasTable.contains, decide_eq_false_iff_not]
      exact Nat.not_le.mpr outside
    rw [setAlias, Option.map_some, AliasTable.set_eq_self missing]

/-- A topic stays until another one is registered for the alias. -/
theorem topicOf?_registerAll_eq_none_iff (context : Context)
    (registrations : List (TopicAlias × Topic)) (name : TopicAlias) :
    (context.registerAll registrations).topicOf? name = none ↔
      context.topicOf? name = none ∧
        (name ∈ registrations.map Prod.fst → context.aliasLimit < name.value.toNat) := by
  induction registrations generalizing context with
  | nil => simp [registerAll]
  | cons registration rest ih =>
    obtain ⟨other, topic⟩ := registration
    have behind := ih (context.setAlias other topic)
    rw [aliasLimit_setAlias] at behind
    refine Iff.trans behind ?_
    rw [List.map_cons, List.mem_cons]
    by_cases same : name = other
    · subst same
      by_cases inside : name.value.toNat ≤ context.aliasLimit
      · simp [topicOf?_setAlias_self inside, inside]
      · have outside := Nat.lt_of_not_le inside
        rw [setAlias_of_lt outside]
        simp [outside]
    · rw [topicOf?_setAlias_other same]
      simp [same]

/-- Where there is nothing that an alias can stand for, there is no slot for it either. -/
theorem register_of_resolve_error {context : Context} {topic : Option Topic}
    {name : Option TopicAlias} {violation : Violation}
    (failed : context.resolve topic name = .error violation) : context.register topic name = context := by
  cases name with
  | none => cases topic <;> rfl
  | some name =>
    cases topic with
    | none => rfl
    | some topic =>
      apply setAlias_of_lt
      apply Nat.lt_of_not_le
      intro inside
      have resolves : context.resolve (some topic) (some name) = .ok _ :=
        resolve_eq_ok_iff.mpr (.registered inside)
      cases failed.symm.trans resolves

theorem register_eq_registerAll (context : Context) (topic : Option Topic)
    (name : Option TopicAlias) :
    context.register topic name =
      context.registerAll (name.bind fun name => topic.map fun topic => (name, topic)).toList := by
  cases name <;> cases topic <;> rfl

end Context

namespace Publish

/-- The alias that the frame of a packet has next to a topic name, with the topic. -/
def registration? (byte : UInt8) (frame : Bytes) : Option (TopicAlias × Topic) :=
  match split byte frame with
  | .error _ => none
  | .ok (_, header, _) =>
    header.properties.topicAlias.bind fun name => header.topic.map fun topic => (name, topic)

/-- Accepted or refused, a packet registers the alias that it has next to a topic name. -/
theorem context_decode (byte : UInt8) (frame : Bytes) (context : Context) :
    (decode byte frame context).2 = context.registerAll (registration? byte frame).toList := by
  unfold decode registration?
  cases split byte frame with
  | error violation => rfl
  | ok parts =>
    obtain ⟨flags, header, payload⟩ := parts
    dsimp only
    rw [← Context.register_eq_registerAll]
    split
    · rename_i failed
      exact (Context.register_of_resolve_error failed).symm
    · rename_i found
      rw [← (Context.resolve_eq_ok_iff.mp found).context_eq]
      split <;> rfl

end Publish

namespace Connection

/-- What an operation registers wherever it is let through. -/
def Operation.registration? : Operation → Option (TopicAlias × Topic)
  | .decodePublish flags frame => Publish.registration? flags frame
  | .setAlias name topic => some (name, topic)
  | .decode _ => none
  | .disconnect _ _ => none

/-- The operations that find the connection closed. -/
def late (connection : Connection) : List Operation → List Operation
  | [] => []
  | operation :: rest =>
    if connection.closed then operation :: rest
    else (connection.perform operation).connection.late rest

variable {connection : Connection}

theorem late_of_closed (closed : connection.closed) (operations : List Operation) :
    connection.late operations = operations := by
  cases operations with
  | nil => rfl
  | cons operation rest => exact if_pos closed

theorem disconnect_of_closed (closed : connection.closed) (reason : ReasonCode) (text : String) :
    connection.disconnect reason text = ⟨(), connection, [.notice (.alreadyClosed reason)]⟩ :=
  if_pos closed

/-- On a closed connection an operation does what it registers, and nothing else. -/
theorem perform_of_closed (closed : connection.closed) (operation : Operation) :
    (connection.perform operation).connection =
      { connection with context := connection.context.registerAll operation.registration?.toList } := by
  cases operation with
  | decode buffer => exact congrArg Outcome.connection (decode_closed closed buffer)
  | disconnect reason text => exact congrArg Outcome.connection (disconnect_of_closed closed reason text)
  | setAlias name topic => rfl
  | decodePublish flags frame =>
    have kept := Publish.context_decode flags frame connection.context
    rw [perform, Outcome.connection_map, decodePublish, Operation.registration?, ← kept]
    split
    · rename_i decoded
      rw [decoded]
    · rename_i violation context decoded
      have still : ({ connection with context := context } : Connection).closed := closed
      rw [Outcome.connection_map, disconnect_of_closed still, decoded]

theorem run_of_closed (closed : connection.closed) (operations : List Operation) :
    (connection.run operations).connection.context =
      connection.context.registerAll (operations.filterMap Operation.registration?) := by
  induction operations generalizing connection with
  | nil => rfl
  | cons operation rest ih =>
    have first := perform_of_closed closed operation
    have parts : (operation :: rest).filterMap Operation.registration? =
        operation.registration?.toList ++ rest.filterMap Operation.registration? := by
      rw [List.filterMap_cons]
      cases operation.registration? <;> rfl
    rw [run, Outcome.connection_after, parts, Context.registerAll_append]
    rw [first]
    exact ih closed

/-- The end of a connection leaves nothing of what was registered before. -/
theorem run_of_closes {config : Config} (running : connection.closed = false)
    (configured : connection.context.reset = Context.ofConfig config) {operations : List Operation}
    (closed : (connection.run operations).connection.closed) :
    (connection.run operations).connection.context =
      (Context.ofConfig config).registerAll
        ((connection.late operations).filterMap Operation.registration?) := by
  induction operations generalizing connection with
  | nil => cases running.symm.trans closed
  | cons operation rest ih =>
    rw [run, Outcome.connection_after] at closed ⊢
    rw [late, if_neg (Bool.eq_false_iff.mp running)]
    cases perform_moves connection operation with
    | stays same silent kept => exact ih (same.trans running) (kept.trans configured) closed
    | closes before ended parting forgotten =>
      rw [late_of_closed ended, run_of_closed ended, forgotten, configured]

/-- A closed connection remembers the topics that were registered after its end, and no others: a slot
is empty exactly where nothing was registered for it then. -/
theorem context_of_closed (config : Config) (operations : List Operation) :
    let reached := ((ofConfig config).run operations).connection
    let registrations := ((ofConfig config).late operations).filterMap Operation.registration?
    reached.closed →
      reached.context = (Context.ofConfig config).registerAll registrations ∧
      ∀ name : TopicAlias, reached.context.topicOf? name = none ↔
        (name ∈ registrations.map Prod.fst →
          config.topicAliasMaximum.toNat < name.value.toNat) := by
  intro reached registrations closed
  have remembered : reached.context = (Context.ofConfig config).registerAll registrations :=
    run_of_closes rfl (Context.reset_ofConfig config) closed
  refine ⟨remembered, fun name => ?_⟩
  rw [remembered, Context.topicOf?_registerAll_eq_none_iff, Context.topicOf?_ofConfig,
    Context.aliasLimit_ofConfig]
  exact ⟨And.right, fun nothing => ⟨rfl, nothing⟩⟩

/-- A frame of a PUBLISH with a topic name and an alias for it is decoded after the end. -/
def belated : List Operation :=
  [.disconnect .normalDisconnection "bye",
    .decodePublish 0 [0x00, 0x01, 0x61, 0x03, 0x23, 0x00, 0x01]]

theorem context_of_closed_belated :
    ((ofConfig { topicAliasMaximum := 1 }).run belated).connection.closed ∧
      ((ofConfig { topicAliasMaximum := 1 }).run belated).connection.context.topicOf?
        ⟨1, by decide⟩ ≠ none := by
  have closed : ((ofConfig { topicAliasMaximum := 1 }).run belated).connection.closed := by
    decide +kernel
  have slots := (context_of_closed { topicAliasMaximum := 1 } belated closed).2 ⟨1, by decide⟩
  have registered : (⟨1, by decide⟩ : TopicAlias) ∈
      (((ofConfig { topicAliasMaximum := 1 }).late belated).filterMap
        Operation.registration?).map Prod.fst := by
    decide +kernel
  exact ⟨closed, fun empty => absurd (slots.mp empty registered) (by decide)⟩

end Connection
end Mqtt
