import Mqtt.Proofs.Publish.Refusal

/-!
What checking payloads changes. The flag is looked at behind everything else, so a receiver that
checks refuses what another one with the same aliases hands over with a payload that is not the text
it is declared to be. It agrees with the other one about every other packet, and about the aliases.
-/
namespace Mqtt

/-- The policy of a context does not matter for what its aliases stand for. -/
theorem Context.resolve_of_aliases {first second : Context} (same : first.aliases = second.aliases)
    (topic : Option Topic) (name : Option TopicAlias) :
    second.resolve topic name = (first.resolve topic name).map fun resolved =>
      { resolved with context := { resolved.context with policy := second.policy } } := by
  obtain ⟨aliases, policy⟩ := first
  obtain ⟨others, other⟩ := second
  cases same
  cases name with
  | none => cases topic <;> rfl
  | some name =>
    cases aliases with
    | none => rfl
    | some table =>
      simp only [resolve]
      cases table.contains name with
      | false => rfl
      | true =>
        cases topic with
        | some topic => rfl
        | none => cases table.get? name <;> rfl

namespace Publish

/-- The payload is not the text that it is declared to be. -/
structure Mislabelled (publish : Publish) : Prop where
  declared : publish.properties.payloadFormat = some .utf8
  garbled : ∃ payload, publish.payload = some payload ∧ ¬ Utf8.Valid payload

/-- A packet without a payload cannot have a wrong one. -/
theorem mislabelled_iff {publish : Publish} {rest : Bytes}
    (carried : PayloadForm publish.payload rest) :
    publish.Mislabelled ↔
      publish.properties.payloadFormat = some .utf8 ∧ ¬ Utf8.Valid rest := by
  constructor
  · rintro ⟨declared, payload, present, invalid⟩
    rw [present] at carried
    cases carried
    exact ⟨declared, invalid⟩
  · rintro ⟨declared, invalid⟩
    refine ⟨declared, rest, ?_, invalid⟩
    rw [payloadForm_iff.mp carried, if_neg]
    intro empty
    rw [List.isEmpty_iff.mp empty] at invalid
    exact invalid (by decide)

variable {byte : UInt8} {frame : Bytes} {checked unchecked : Context}

/-- A packet is refused in front of its payload by both receivers. Behind that the one that does not
check accepts it, and the other one if its payload is what it is declared to be. -/
theorem decode_of_aliases (same : checked.aliases = unchecked.aliases)
    (checks : checked.policy.validatePayload) (off : unchecked.policy.validatePayload = false) :
    (∃ violation ∈ Violation.beforePayload,
      (decode byte frame unchecked).1 = .error violation ∧
        (decode byte frame checked).1 = .error violation) ∨
    ∃ publish, (decode byte frame unchecked).1 = .ok publish ∧
      ((publish.Mislabelled ∧ (decode byte frame checked).1 = .error .payloadNotText) ∨
        (¬ publish.Mislabelled ∧ (decode byte frame checked).1 = .ok publish)) := by
  cases opened : split byte frame with
  | error violation =>
    refine .inl ⟨violation, beforePayload_of_split opened, ?_, ?_⟩
    all_goals simp only [decode, opened]
  | ok parts =>
    obtain ⟨flags, header, payload⟩ := parts
    have resolves := Context.resolve_of_aliases same header.topic header.properties.topicAlias
    cases found : checked.resolve header.topic header.properties.topicAlias with
    | error violation =>
      rw [found] at resolves
      refine .inl ⟨violation, beforePayload_of_resolve found, ?_, ?_⟩
      · simp only [decode, opened, resolves, Except.map]
      · simp only [decode, opened, found]
    | ok resolved =>
      rw [found] at resolves
      have allowed : payloadAllowed unchecked.policy header.properties.payloadFormat payload := by
        rw [payloadAllowed_iff, off]
        exact fun impossible => (Bool.false_ne_true impossible).elim
      refine .inr ⟨_, by simp only [decode, opened, resolves, Except.map, if_pos allowed]; rfl, ?_⟩
      rw [mislabelled_iff (payloadForm_iff.mpr rfl)]
      by_cases textual : header.properties.payloadFormat = some .utf8 → Utf8.Valid payload
      · have passes : payloadAllowed checked.policy header.properties.payloadFormat payload :=
          payloadAllowed_iff.mpr fun _ => textual
        refine .inr ⟨not_and_not_right.mpr textual, ?_⟩
        simp only [decode, opened, found, if_pos passes]
      · have refused : ¬ payloadAllowed checked.policy header.properties.payloadFormat payload := by
          rw [payloadAllowed_iff]
          exact fun passes => textual (passes checks)
        refine .inl ⟨Classical.not_imp.mp textual, ?_⟩
        simp only [decode, opened, found, if_neg refused]

theorem aliases_decode {first second : Context} (same : first.aliases = second.aliases)
    (byte : UInt8) (frame : Bytes) :
    (decode byte frame first).2.aliases = (decode byte frame second).2.aliases := by
  unfold decode
  cases split byte frame with
  | error violation => exact same
  | ok parts =>
    obtain ⟨flags, header, payload⟩ := parts
    dsimp only
    rw [Context.resolve_of_aliases same]
    cases first.resolve header.topic header.properties.topicAlias with
    | error violation => exact same
    | ok resolved =>
      simp only [Except.map, apply_ite Prod.snd, ite_self]

/-- Of two receivers with the same aliases, the one that checks payloads refuses a packet for its
payload exactly when the other one accepts it with a payload that is not the text it is declared to
be. About every other packet they agree, and they go on with the same aliases in any case. -/
theorem decode_of_validation (same : checked.aliases = unchecked.aliases)
    (checks : checked.policy.validatePayload) (off : unchecked.policy.validatePayload = false) :
    ((∃ violation, (decode byte frame checked).1 = .error violation ∧
        violation.kind = .payloadFormatInvalid) ↔
      ∃ publish, (decode byte frame unchecked).1 = .ok publish ∧ publish.Mislabelled) ∧
    ((¬ ∃ publish, (decode byte frame unchecked).1 = .ok publish ∧ publish.Mislabelled) →
      (decode byte frame checked).1 = (decode byte frame unchecked).1) ∧
    (decode byte frame checked).2.aliases = (decode byte frame unchecked).2.aliases := by
  have kept := aliases_decode same byte frame
  rcases decode_of_aliases same checks off with ⟨violation, early, other, refused⟩ |
    ⟨publish, accepted, ⟨mislabelled, refused⟩ | ⟨labelled, also⟩⟩
  · refine ⟨iff_of_false ?_ ?_, fun _ => refused.trans other.symm, kept⟩
    · rintro ⟨reported, found, kind⟩
      cases refused.symm.trans found
      exact Violation.kind_of_beforePayload early kind
    · rintro ⟨publish, accepted, -⟩
      cases other.symm.trans accepted
  · have handed : ∃ publish, (decode byte frame unchecked).1 = .ok publish ∧ publish.Mislabelled :=
      ⟨publish, accepted, mislabelled⟩
    exact ⟨iff_of_true ⟨_, refused, rfl⟩ handed, fun others => absurd handed others, kept⟩
  · refine ⟨iff_of_false ?_ ?_, fun _ => also.trans accepted.symm, kept⟩
    · rintro ⟨reported, found, -⟩
      cases also.symm.trans found
    · rintro ⟨found, accepts, mislabelled⟩
      cases accepted.symm.trans accepts
      exact labelled mislabelled

/-- Both receivers register the alias in front of a payload that only one of them refuses. -/
theorem decode_of_validation_garbled :
    let sharing : Context :=
      { checking with policy := { sharePayload := true, shareCorrelationData := true } }
    (∃ publish, (decode 0 garbled sharing).1 = .ok publish ∧ publish.Mislabelled) ∧
      (∃ violation, (decode 0 garbled checking).1 = .error violation ∧
        violation.kind = .payloadFormatInvalid) ∧
      (decode 0 garbled checking).2.aliases = (decode 0 garbled sharing).2.aliases := by
  intro sharing
  let publish : Publish :=
    { topic := ⟨"a", by decide, by decide, by simp⟩
      payload := some [0xFF]
      isNewAlias := true
      properties := { payloadFormat := some .utf8, topicAlias := some ⟨1, by decide⟩ } }
  have accepted : (decode 0 garbled sharing).1 = .ok publish := by decide +kernel
  have mislabelled : publish.Mislabelled := ⟨rfl, [0xFF], rfl, by decide⟩
  obtain ⟨refuses, -, aliases⟩ := @decode_of_validation 0 garbled checking sharing rfl rfl rfl
  exact ⟨⟨publish, accepted, mislabelled⟩, refuses.mpr ⟨publish, accepted, mislabelled⟩, aliases⟩

end Publish
end Mqtt
