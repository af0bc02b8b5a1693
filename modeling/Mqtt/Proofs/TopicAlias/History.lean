import Mqtt.Proofs.Publish.Writing

/-!
Topic aliases over a history of packets. A context remembers a history when its aliases stand for
the topics that the packets of the history registered last; a packet that keeps to the history
resolves in such a context, and leaves one that remembers the packet as well.
-/
namespace Mqtt

namespace Publish

/-- The packet makes the alias stand for its topic. -/
def Registers (publish : Publish) (name : TopicAlias) : Prop :=
  publish.isNewAlias ∧ publish.properties.topicAlias = some name

instance (publish : Publish) (name : TopicAlias) : Decidable (publish.Registers name) :=
  inferInstanceAs (Decidable (_ ∧ _))

/-- The topic that the latest of some packets registered for an alias. -/
def latestTopic (publishes : List Publish) (name : TopicAlias) : Option Topic :=
  (publishes.reverse.find? fun publish => publish.Registers name).map Publish.topic

theorem latestTopic_append (before : List Publish) (publish : Publish) (name : TopicAlias) :
    latestTopic (before ++ [publish]) name =
      if publish.Registers name then some publish.topic else latestTopic before name := by
  simp only [latestTopic, List.reverse_append, List.reverse_singleton, List.singleton_append,
    List.find?_cons]
  by_cases registers : publish.Registers name <;> simp [registers]

/-- A packet that leaves its topic to an alias means the topic that was registered last. -/
def FollowsUp (before : List Publish) (publish : Publish) : Prop :=
  ∀ name, publish.properties.topicAlias = some name → publish.isNewAlias = false →
    latestTopic before name = some publish.topic

/-- Every packet of a list keeps to the packets in front of it. -/
def AliasConsistent (publishes : List Publish) : Prop :=
  ∀ before publish behind, publishes = before ++ publish :: behind → FollowsUp before publish

theorem AliasConsistent.append {before : List Publish} {publish : Publish}
    (consistent : AliasConsistent before) (follows : FollowsUp before publish) :
    AliasConsistent (before ++ [publish]) := by
  intro earlier other behind parts
  rcases List.eq_nil_or_concat behind with rfl | ⟨behind, last, rfl⟩
  · obtain ⟨rfl, same⟩ := List.append_inj' parts rfl
    cases same
    exact follows
  · rw [List.concat_eq_append, ← List.cons_append, ← List.append_assoc] at parts
    exact consistent earlier other behind (List.append_inj' parts rfl).1

/-- The packet uses no alias that a receiver with this configuration does not have, and has a payload
that such a receiver lets pass. -/
structure AcceptableTo (config : Config) (publish : Publish) : Prop where
  topicAlias : ∀ name, publish.properties.topicAlias = some name →
    name.value.toNat ≤ config.topicAliasMaximum.toNat
  payload : config.validatePayload → publish.properties.payloadFormat = some .utf8 →
    Utf8.Valid (publish.payload.getD [])

end Publish

namespace Context

open Publish

/-- The context of a receiver with a configuration, after some packets. -/
structure Remembers (config : Config) (before : List Publish) (context : Context) : Prop where
  policy : context.policy = config.toDecodePolicy
  limit : context.aliasLimit = config.topicAliasMaximum.toNat
  topics : ∀ name, context.topicOf? name = latestTopic before name

theorem remembers_ofConfig (config : Config) : (ofConfig config).Remembers config [] where
  policy := rfl
  limit := aliasLimit_ofConfig config
  topics := topicOf?_ofConfig config

variable {config : Config} {before : List Publish} {context : Context} {publish : Publish}

private theorem Remembers.unregistered (remembers : context.Remembers config before)
    (old : ∀ name, ¬ publish.Registers name) : context.Remembers config (before ++ [publish]) where
  policy := remembers.policy
  limit := remembers.limit
  topics name := by rw [latestTopic_append, if_neg (old name), remembers.topics name]

private theorem Remembers.registered {name : TopicAlias} (remembers : context.Remembers config before)
    (inside : name.value.toNat ≤ context.aliasLimit) (registers : publish.Registers name) :
    (context.setAlias name publish.topic).Remembers config (before ++ [publish]) where
  policy := remembers.policy
  limit := (aliasLimit_setAlias context name publish.topic).trans remembers.limit
  topics other := by
    rw [latestTopic_append]
    by_cases same : other = name
    · subst same
      rw [if_pos registers, topicOf?_setAlias_self inside]
    · have skipped : ¬ publish.Registers other := by
        intro again
        exact same (Option.some.inj (again.2.symm.trans registers.2))
      rw [if_neg skipped, topicOf?_setAlias_other same, remembers.topics other]

section

variable {topic : Option Topic} {after : Context}

/-- A packet that resolves is remembered with the others. -/
theorem Remembers.append (remembers : context.Remembers config before)
    (resolves : context.Resolves topic publish.properties.topicAlias
      ⟨publish.topic, publish.isNewAlias, after⟩) :
    after.Remembers config (before ++ [publish]) := by
  generalize named : publish.properties.topicAlias = name at resolves
  generalize made : (⟨publish.topic, publish.isNewAlias, after⟩ : TopicAlias.Resolution) = resolved
    at resolves
  cases resolves with
  | named =>
    cases (TopicAlias.Resolution.mk.inj made).2.2
    exact remembers.unregistered fun name registers => by cases named.symm.trans registers.2
  | registered inside =>
    obtain ⟨rfl, new, rfl⟩ := TopicAlias.Resolution.mk.inj made
    exact remembers.registered inside ⟨new, named⟩
  | known =>
    obtain ⟨-, old, rfl⟩ := TopicAlias.Resolution.mk.inj made
    exact remembers.unregistered fun name registers => by cases old.symm.trans registers.1

/-- An alias alone stands for a topic of the history. -/
theorem Remembers.followsUp (remembers : context.Remembers config before)
    (resolves : context.Resolves topic publish.properties.topicAlias
      ⟨publish.topic, publish.isNewAlias, after⟩) : FollowsUp before publish := by
  intro name named old
  rw [named, old] at resolves
  cases resolves with
  | known inside filled => rw [← remembers.topics name, filled]

theorem Remembers.le_maximum (remembers : context.Remembers config before) {name : TopicAlias}
    {resolved : TopicAlias.Resolution} (resolves : context.Resolves topic (some name) resolved) :
    name.value.toNat ≤ config.topicAliasMaximum.toNat := by
  rw [← remembers.limit]
  cases resolves <;> assumption

end

/-- The topic of a packet is found by what was sent of it, and the history grows by the packet. -/
theorem Remembers.resolves (remembers : context.Remembers config before)
    (wellFormed : publish.WellFormed) (acceptable : publish.AcceptableTo config)
    (follows : FollowsUp before publish) :
    ∃ after : Context, after.Remembers config (before ++ [publish]) ∧
      context.Resolves publish.sentTopic publish.properties.topicAlias
        ⟨publish.topic, publish.isNewAlias, after⟩ := by
  suffices found : ∃ after, context.Resolves publish.sentTopic publish.properties.topicAlias
      ⟨publish.topic, publish.isNewAlias, after⟩ by
    obtain ⟨after, resolves⟩ := found
    exact ⟨after, remembers.append resolves, resolves⟩
  unfold sentTopic topicOmitted
  cases named : publish.properties.topicAlias with
  | none =>
    have old : publish.isNewAlias = false := by
      cases new : publish.isNewAlias with
      | false => rfl
      | true =>
        have present := wellFormed.newAlias new
        rw [named] at present
        cases present
    rw [old]
    exact ⟨context, .named⟩
  | some name =>
    have inside : name.value.toNat ≤ context.aliasLimit := by
      rw [remembers.limit]
      exact acceptable.topicAlias name named
    cases new : publish.isNewAlias with
    | true => exact ⟨context.setAlias name publish.topic, .registered inside⟩
    | false =>
      refine ⟨context, .known inside ?_⟩
      rw [remembers.topics name]
      exact follows name named new

end Context
end Mqtt
