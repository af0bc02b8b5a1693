import Mqtt.Context
import Mqtt.Violation

/-!
The topic that a PUBLISH is about, from its topic name and its topic alias. A name together with an
alias registers the alias; an alias alone stands for the topic registered last.
-/
namespace Mqtt

structure TopicAlias.Resolution where
  topic : Topic
  isNew : Bool
  context : Context

/-- The topic for `name`, where `topic` was not given as text if it is absent. -/
def Context.resolve (context : Context) (topic : Option Topic) (name : Option TopicAlias) :
    Except Violation TopicAlias.Resolution :=
  match name, topic with
  | none, none => .error .missingTopicAlias
  | none, some topic => .ok ⟨topic, false, context⟩
  | some name, topic =>
    match context.aliases with
    | none => .error .exceededTopicAlias
    | some table =>
      if table.contains name then
        match topic with
        | some topic => .ok ⟨topic, true, context.setAlias name topic⟩
        | none =>
          match table.get? name with
          | none => .error .unmappedTopicAlias
          | some topic => .ok ⟨topic, false, context⟩
      else .error .exceededTopicAlias

end Mqtt
