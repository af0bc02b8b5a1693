import Mqtt.Proofs.Publish.Grammar
import Mqtt.Proofs.Publish.Violations

/-!
What a refused PUBLISH leaves in the context. The fields are read in order, and the topic alias is
registered as soon as it is known to be in range; after that only the payload can be refused. What a
connection does about a refused packet is not covered.
-/
namespace Mqtt

/-- The context in which an alias that stands next to a topic name is registered for it. -/
def Context.register (context : Context) : Option Topic → Option TopicAlias → Context
  | some topic, some name => context.setAlias name topic
  | _, _ => context

theorem Context.Resolves.context_eq {context : Context} {topic : Option Topic}
    {name : Option TopicAlias} {resolved : TopicAlias.Resolution}
    (resolves : context.Resolves topic name resolved) :
    resolved.context = context.register topic name := by
  cases resolves <;> rfl

namespace Publish

variable {byte : UInt8} {frame : Bytes} {context after : Context} {violation : Violation}

/-- A header that was read, in front of a payload that is not the text it is declared to be. -/
inductive Garbled (byte : UInt8) (policy : DecodePolicy) : Bytes → Header → Prop
  | payload {flags : Flags} {header : Header} {head rest : Bytes} (flagged : flags.Form byte)
      (headed : header.Form flags.qos head) (checked : policy.validatePayload)
      (declared : header.properties.payloadFormat = some .utf8) (invalid : ¬ Utf8.Valid rest) :
      Garbled byte policy (head ++ rest) header

/-- A refused packet leaves the context as it was, unless its payload is all that is wrong with it: an
alias that it has next to a topic name is registered then, and nothing else is changed. -/
theorem context_of_refused (refused : decode byte frame context = (.error violation, after)) :
    (violation ≠ .payloadNotText ∧ after = context) ∨
      (violation = .payloadNotText ∧ ∃ header, Garbled byte context.policy frame header ∧
        after = context.register header.topic header.properties.topicAlias) := by
  unfold decode at refused
  split at refused
  · rename_i fault failed
    cases refused
    have early := beforePayload_of_split failed
    exact .inl ⟨Violation.ne_payloadNotText_of_beforePayload early, rfl⟩
  · rename_i flags header payload opened
    split at refused
    · rename_i fault failed
      cases refused
      have early := beforePayload_of_resolve failed
      exact .inl ⟨Violation.ne_payloadNotText_of_beforePayload early, rfl⟩
    · rename_i resolved found
      split at refused
      · cases refused
      · rename_i refusal
        cases refused
        obtain ⟨flagged, head, rfl, headed⟩ := split_eq_ok_iff.mp opened
        simp only [payloadAllowed_iff, Classical.not_imp] at refusal
        obtain ⟨checked, declared, invalid⟩ := refusal
        have resolves := Context.resolve_eq_ok_iff.mp found
        exact .inr ⟨rfl, header, .payload flagged headed checked declared invalid,
          resolves.context_eq⟩

/-- A topic name with an alias, and a payload that is declared as text and is none. -/
def garbled : Bytes := [0, 1, 0x61, 5, 1, 1, 0x23, 0, 1, 0xFF]

/-- A receiver that checks payloads and has a slot for one alias. -/
def checking : Context := .ofConfig { topicAliasMaximum := 1, validatePayload := true }

private theorem decode_garbled :
    decode 0 garbled checking = (.error .payloadNotText, (decode 0 garbled checking).2) := by
  have refused : (decode 0 garbled checking).1 = .error .payloadNotText := by decide +kernel
  exact Prod.ext refused rfl

theorem context_of_garbled :
    ∃ header after, decode 0 garbled checking = (.error .payloadNotText, after) ∧
      Garbled 0 checking.policy garbled header ∧
      after = checking.register header.topic header.properties.topicAlias := by
  rcases context_of_refused decode_garbled with ⟨other, -⟩ | ⟨-, header, found, registered⟩
  · exact absurd rfl other
  · exact ⟨header, _, decode_garbled, found, registered⟩

/-- A refused packet may leave an alias behind. -/
theorem not_unchanged_of_refused :
    ¬ ∀ (byte : UInt8) (frame : Bytes) (context after : Context) (violation : Violation),
      decode byte frame context = (.error violation, after) → after = context := by
  intro unchanged
  have changed : (decode 0 garbled checking).2 ≠ checking := by decide +kernel
  exact changed (unchanged _ _ _ _ _ decode_garbled)

end Publish
end Mqtt
