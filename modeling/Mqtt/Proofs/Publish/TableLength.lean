import Mathlib.Data.List.Forall2
import Mqtt.Proofs.Publish.Defects

/-!
Property lengths that disagree with the properties of a PUBLISH. A length that ends inside a property,
or that is longer than the packet, is malformed. Where the packet itself ends inside a property, the
property that was cut is malformed, and what the packet is refused with depends on its kind.
-/
namespace Mqtt

namespace Concatenation

variable {α : Type} {form : α → Bytes → Prop}

/-- A position that is not between two items, and in front of the end, is inside one of them. -/
theorem exists_straddling {items : List α} {pieces : List Bytes} {bound : Nat}
    (each : List.Forall₂ form items pieces) (inside : bound < pieces.flatten.length)
    (between : ∀ count, (pieces.take count).flatten.length ≠ bound) :
    ∃ front item later head entry tail, items = front ++ item :: later ∧
      pieces.flatten = head ++ (entry ++ tail) ∧ Concatenation form front head ∧ form item entry ∧
      head.length < bound ∧ bound < head.length + entry.length := by
  induction each generalizing bound with
  | nil => exact absurd inside (Nat.not_lt_zero bound)
  | @cons item piece items pieces first each ih =>
    have started : 0 < bound := Nat.pos_of_ne_zero fun zero => between 0 zero.symm
    -- The position is in the first piece or, counted from the end of that, in the others.
    by_cases early : bound < piece.length
    · exact ⟨[], item, items, [], piece, pieces.flatten, rfl, rfl, .nil, first, started,
        by simpa using early⟩
    · have apart : piece.length ≠ bound := by simpa using between 1
      rw [List.flatten_cons, List.length_append] at inside
      have following : ∀ count, (pieces.take count).flatten.length ≠ bound - piece.length := by
        intro count same
        have position := between (count + 1)
        rw [List.take_succ_cons, List.flatten_cons, List.length_append] at position
        omega
      obtain ⟨front, found, later, head, entry, tail, rfl, parts, listed, spelled, reached, beyond⟩ :=
        ih (by omega) following
      refine ⟨item :: front, found, later, piece ++ head, entry, tail, rfl, ?_, .cons first listed,
        spelled, ?_, ?_⟩
      · rw [List.flatten_cons, parts, List.append_assoc]
      · rw [List.length_append]
        omega
      · rw [List.length_append]
        omega

end Concatenation

namespace Publish

variable {byte : UInt8} {opening length : Bytes} {declared : Nat}

/-- A length that ends inside a property, or behind the packet, is malformed, whatever else the packet
has. The context stays as it is. -/
theorem decode_of_misdeclared {properties : List Property} {pieces : List Bytes}
    (opened : Opening byte opening) (spelled : VarInt.Form declared length)
    (each : List.Forall₂ (schema.EntryForm Property.ValueForm) properties pieces)
    (unrepeated : schema.Unrepeated properties) (rest : Bytes) (context : Context) :
    (declared < pieces.flatten.length →
      (∀ count, (pieces.take count).flatten.length ≠ declared) →
      decode byte (opening ++ (length ++ (pieces.flatten ++ rest))) context =
        (.error .malformedPropertyLength, context)) ∧
    ((pieces.flatten ++ rest).length < declared →
      decode byte (opening ++ (length ++ (pieces.flatten ++ rest))) context =
        (.error .tooShort, context)) := by
  constructor
  · intro inside between
    obtain ⟨front, property, later, head, entry, tail, rfl, parts, listed, found, reached, beyond⟩ :=
      Concatenation.exists_straddling each inside between
    obtain ⟨together, compatible⟩ := unrepeated.behind
    refine decode_error_of_table opened spelled ?_ context
    have enough : declared ≤ (pieces.flatten ++ rest).length := by
      rw [List.length_append]
      omega
    rw [parts, List.append_assoc, List.append_assoc] at enough ⊢
    exact PropertySchema.read_error_of_stops schema_describes spelled listed together reached enough
      (PropertySchema.stops_of_overrun schema_describes found compatible (by omega))
  · intro short
    exact decode_error_of_table opened spelled (PropertySchema.read_tooShort spelled short) context

private theorem expiry_form :
    schema.EntryForm Property.ValueForm (.messageExpiry 10) ([2] ++ [0, 0, 0, 10]) := by
  have name : VarInt.Form 2 [2] := VarInt.reader_recognizes.whole rfl
  exact .entry name rfl

private def replies : Topic := ⟨"r", by decide, by decide, by simp⟩

private theorem replies_form : Property.ValueForm (.responseTopic replies) [0, 1, 0x72] := by
  have read : Reader.binary.run [0, 1, 0x72] = .ok ([0x72], 3) := by decide
  exact Reader.binary_recognizes.whole read

private theorem opening_form : Opening 0 ([0, 1, 0x61] ++ []) := by
  have flagged : Flags.decode 0 = .ok ⟨false, .atMostOnce, false⟩ := by decide
  have named : topicReader.run [0, 1, 0x61] = .ok (some ⟨"a", by decide, by decide, by simp⟩, 3) := by
    decide +kernel
  exact .fields (Flags.decode_eq_ok_iff.mp flagged) (topicReader_recognizes.whole named) .absent

/-- A length that ends in the length field of a response topic, and one that counts a byte more than
there is. -/
theorem decode_of_misdeclared_reply :
    let context : Context := .ofConfig { topicAliasMaximum := 1 }
    decode 0 ([0, 1, 0x61, 7] ++ [2, 0, 0, 0, 10, 8, 0, 1, 0x72, 1, 1]) context =
        (.error .malformedPropertyLength, context) ∧
      decode 0 ([0, 1, 0x61, 12] ++ [2, 0, 0, 0, 10, 8, 0, 1, 0x72, 1, 1]) context =
        (.error .tooShort, context) := by
  intro context
  have name : VarInt.Form 8 [8] := VarInt.reader_recognizes.whole rfl
  have reply : schema.EntryForm Property.ValueForm (.responseTopic replies) ([8] ++ [0, 1, 0x72]) :=
    .entry name replies_form
  have each : List.Forall₂ (schema.EntryForm Property.ValueForm)
      [.messageExpiry 10, .responseTopic replies] [[2, 0, 0, 0, 10], [8, 0, 1, 0x72]] :=
    .cons expiry_form (.cons reply .nil)
  have unrepeated : schema.Unrepeated [.messageExpiry 10, .responseTopic replies] := by
    simp [PropertySchema.Unrepeated, PropertySchema.Compatible, schema, Property.id]
  have early : VarInt.Form 7 [7] := VarInt.reader_recognizes.whole rfl
  have late : VarInt.Form 12 [12] := VarInt.reader_recognizes.whole rfl
  constructor
  · refine (decode_of_misdeclared opening_form early each unrepeated [1, 1] context).1 (by decide) ?_
    rintro (_ | _ | count)
    · decide
    · decide
    · simp
  · exact (decode_of_misdeclared opening_form late each unrepeated [1, 1] context).2 (by decide)

/-- What a property is refused with of which the last bytes are missing. -/
def Property.truncation : Property → Violation
  | payloadFormat _ => .wrongPayloadFormat
  | messageExpiry _ => .malformedMessageExpiry
  | topicAlias _ => .malformedTopicAlias
  | contentType _ => .malformedContentType
  | responseTopic _ => .malformedResponseTopic
  | correlationData _ => .malformedCorrelationData
  | user _ => .malformedUserProperty
  | subscription _ => .malformedSubscriptionId

/-- Half a response topic is not told apart from one that is no topic name. -/
theorem Property.truncation_kind (property : Property) :
    property.truncation.kind = .malformedPacket ↔ property.id ≠ .responseTopic := by
  cases property with
  | responseTopic topic => exact iff_of_false nofun fun other => other rfl
  | payloadFormat | messageExpiry | topicAlias | contentType | correlationData | user | subscription =>
    exact iff_of_true rfl nofun

private theorem run_truncated {α δ : Type} {reader : Reader δ α} {form : α → Bytes → Prop} {value : α}
    {encoded : Bytes} {kept : Nat} (known : reader.Recognizes form) (spelled : form value encoded)
    (cut : kept < encoded.length) (label : Violation) :
    (reader.mapError fun _ => label).run (encoded.take kept) = .error label := by
  obtain ⟨fault, failed⟩ := known.error_of_cut spelled cut
  exact Reader.run_mapError_error failed _

/-- A value is refused as long as not all of its bytes are there. -/
theorem Property.exists_truncated {property : Property} {encoded : Bytes} {kept : Nat}
    (valued : property.ValueForm encoded) (cut : kept < encoded.length) :
    ∃ reader, Property.value? property.id = some reader ∧
      reader.run (encoded.take kept) = .error property.truncation := by
  cases property with
  | payloadFormat format =>
    have failed := run_truncated Reader.uint8_recognizes valued cut .wrongPayloadFormat
    exact ⟨_, rfl, Reader.run_map_error (Reader.run_mapSome_error failed _ _) _⟩
  | messageExpiry seconds =>
    have failed := run_truncated Reader.uint32_recognizes valued cut .malformedMessageExpiry
    exact ⟨_, rfl, Reader.run_map_error failed _⟩
  | topicAlias name =>
    have failed := run_truncated Reader.uint16_recognizes valued cut .malformedTopicAlias
    exact ⟨_, rfl, Reader.run_map_error (Reader.run_mapSome_error failed _ _) _⟩
  | contentType text =>
    have failed := run_truncated Reader.text_recognizes valued cut .malformedContentType
    exact ⟨_, rfl, Reader.run_map_error failed _⟩
  | responseTopic topic =>
    have failed := run_truncated Reader.binary_recognizes valued cut .malformedResponseTopic
    exact ⟨_, rfl, Reader.run_map_error (Reader.run_mapSome_error failed _ _) _⟩
  | correlationData data =>
    have failed := run_truncated Reader.binary_recognizes valued cut .malformedCorrelationData
    exact ⟨_, rfl, Reader.run_map_error failed _⟩
  | user pair =>
    have failed := run_truncated Reader.userProperty_recognizes valued cut .malformedUserProperty
    exact ⟨_, rfl, Reader.run_map_error failed _⟩
  | subscription id =>
    have failed := run_truncated VarInt.reader_recognizes valued cut .malformedSubscriptionId
    exact ⟨_, rfl, Reader.run_map_error (Reader.run_mapSome_error failed _ _) _⟩

/-- A property of which only the first bytes are there stops the loop over the properties. -/
theorem stops_of_truncated {property : Property} {behind : List Property} {name value : Bytes}
    {kept : Nat} (named : VarInt.Form property.id.code.toNat name)
    (valued : property.ValueForm value)
    (compatible : ∀ earlier ∈ behind, schema.Compatible property earlier)
    (cut : kept < (name ++ value).length) (missing : Nat) :
    PropertyTable.Stops schema.faults schema.handler behind ((name ++ value).take kept) missing
      (if kept < name.length then .malformedPropertyId else property.truncation) := by
  split
  · rename_i early
    obtain ⟨reason, failed⟩ := VarInt.reader_recognizes.error_of_cut named early
    rw [List.take_append_of_le_length (Nat.le_of_lt early)]
    exact .unnamed failed
  · rename_i late
    have whole : name.length ≤ kept := Nat.not_lt.mp late
    rw [List.length_append] at cut
    obtain ⟨reader, supported, failed⟩ :=
      Property.exists_truncated valued (show kept - name.length < value.length by omega)
    have fresh : ∀ earlier ∈ behind, earlier.id = property.id → property.id.mayRepeat :=
      fun earlier member same => compatible earlier member same.symm
    rw [List.take_append, List.take_of_length_le whole]
    exact PropertySchema.stops_of_value supported fresh named failed

/-- A packet that ends inside a property is refused for the identifier or for the value that was cut,
and the context stays as it is. It is malformed, unless the value of a response topic was cut. -/
theorem decode_of_truncated {front : List Property} {property : Property}
    {entries name value : Bytes} {kept : Nat} (opened : Opening byte opening)
    (listed : Concatenation (schema.EntryForm Property.ValueForm) front entries)
    (named : VarInt.Form property.id.code.toNat name) (valued : property.ValueForm value)
    (unrepeated : schema.Unrepeated (front ++ [property])) (started : 0 < kept)
    (cut : kept < (name ++ value).length) (spelled : VarInt.Form (entries.length + kept) length)
    (context : Context) :
    ∃ violation, decode byte (opening ++ (length ++ (entries ++ (name ++ value).take kept))) context =
        (.error violation, context) ∧
      violation = (if kept < name.length then .malformedPropertyId else property.truncation) ∧
      (violation.kind = .malformedPacket ↔ kept < name.length ∨ property.id ≠ .responseTopic) := by
  obtain ⟨together, compatible⟩ := unrepeated.behind
  have stops := stops_of_truncated named valued compatible cut (entries.length + kept - entries.length)
  have enough : entries.length + kept ≤ (entries ++ (name ++ value).take kept).length := by
    rw [List.length_append, List.length_take, Nat.min_eq_left (Nat.le_of_lt cut)]
  have failed := PropertySchema.read_error_of_stops schema_describes spelled listed together
    (Nat.lt_add_of_pos_right started) enough stops
  refine ⟨_, decode_error_of_table opened spelled failed context, rfl, ?_⟩
  split
  · rename_i early
    exact iff_of_true rfl (.inl early)
  · rename_i late
    rw [property.truncation_kind, or_iff_right late]

/-- A packet that ends in the length field of a response topic. -/
theorem decode_of_truncated_reply :
    let context : Context := .ofConfig {}
    ∃ violation, decode 0 ([0, 1, 0x61] ++ ([7] ++ ([2, 0, 0, 0, 10] ++ [8, 0]))) context =
        (.error violation, context) ∧ violation = .malformedResponseTopic ∧
      violation.kind ≠ .malformedPacket := by
  intro context
  have length : VarInt.Form 7 [7] := VarInt.reader_recognizes.whole rfl
  have name : VarInt.Form (Property.responseTopic replies).id.code.toNat [8] :=
    VarInt.reader_recognizes.whole rfl
  have unrepeated : schema.Unrepeated ([.messageExpiry 10] ++ [.responseTopic replies]) := by
    simp [PropertySchema.Unrepeated, PropertySchema.Compatible, schema, Property.id]
  obtain ⟨violation, refused, same, kind⟩ := decode_of_truncated opening_form (.cons expiry_form .nil)
    name replies_form unrepeated (show 0 < 2 by decide) (by decide) length context
  exact ⟨violation, refused, same, fun malformed => by simpa [Property.id] using kind.mp malformed⟩

end Publish
end Mqtt
