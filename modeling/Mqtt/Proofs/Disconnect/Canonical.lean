import Mqtt.Proofs.Disconnect.Delivery

/-!
Writing back a DISCONNECT that was read. A body may spell its integers longer than they need to be,
leave out its table, and list its properties in any order. Under the protocol's own limit all of its
properties are written again, however close to that limit the body was. What a smaller limit leaves of
them is not covered.
-/
namespace Mqtt

/-- A length close to the largest is spelled in four bytes, so that setting four bytes aside for it
takes no more room than its spelling. -/
theorem VarInt.Form.reserve_le {number : Nat} {encoded : Bytes} (form : Form number encoded)
    (fits : 1 + (encoded.length + number) ≤ maximum) : 1 + 4 + number ≤ maximum := by
  have shortest := form.size_le
  unfold size at shortest
  unfold maximum at fits ⊢
  repeat' split at shortest
  all_goals omega

namespace Disconnect

/-- A value that was read can be written. -/
theorem Property.sendable_of_form {property : Property} {encoded : Bytes}
    (form : property.ValueForm encoded) : property.Sendable := by
  cases property with
  | sessionExpiry seconds => trivial
  | serverReference text => exact TextForm.sendable form
  | reasonString text => exact TextForm.sendable form
  | user property =>
    obtain ⟨name, value⟩ := form
    exact ⟨name.sendable, value.sendable⟩

/-- Every value has one spelling. -/
theorem Property.length_of_form {property : Property} {encoded : Bytes}
    (form : property.ValueForm encoded) : encoded.length = property.valueSize := by
  cases property with
  | sessionExpiry seconds =>
    cases form
    exact BigEndian.length_encode 4 seconds.toNat
  | serverReference text => exact TextForm.length form
  | reasonString text => exact TextForm.length form
  | user property => exact UserProperty.Form.length form

/-- Only the identifier may be spelled longer than it needs to be. -/
theorem Property.size_le {property : Property} {encoded : Bytes}
    (form : schema.EntryForm Property.ValueForm property encoded) :
    property.size ≤ encoded.length := by
  obtain ⟨named, valued⟩ := form
  rw [List.length_append, length_of_form valued]
  exact Nat.add_le_add_right named.length_pos _

/-- The kinds of properties, in the order in which they are written. -/
def order : List PropertyId :=
  [.sessionExpiryInterval, .serverReference, .userProperty, .reasonString]

/-- The packet has the properties that were collected, each as often as it stood there. -/
theorem Collects.properties_perm {disconnect : Disconnect} {properties : List Property}
    (collected : disconnect.Collects properties) (unrepeated : schema.Unrepeated properties) :
    disconnect.properties.Perm properties := by
  have sessionExpiry := PropertySchema.toList_eq_filter schema .sessionExpiryInterval unrepeated rfl
    (fun property => by cases property <;> simp [schema, Property.id]) collected.sessionExpiry
  have serverReference := PropertySchema.toList_eq_filter schema .serverReference unrepeated rfl
    (fun property => by cases property <;> simp [schema, Property.id]) collected.serverReference
  have reasonString := PropertySchema.toList_eq_filter schema .reasonString unrepeated rfl
    (fun property => by cases property <;> simp [schema, Property.id]) collected.reasonString
  have byKind : disconnect.properties =
      order.flatMap fun kind => properties.filter fun property => schema.id property == kind := by
    rw [Disconnect.properties, fixedProperties, diagnostics, sessionExpiry, serverReference,
      reasonString, collected.userProperties]
    simp only [order, List.flatMap_cons, List.flatMap_nil, List.append_assoc, List.append_nil]
    rfl
  have known : ∀ property ∈ properties, schema.id property ∈ order := by
    intro property _
    cases property <;> simp [order, schema, Property.id]
  rw [byKind]
  exact PropertySchema.flatMap_filter_perm schema (by decide) known

namespace Form

variable {disconnect : Disconnect} {body : Bytes}

/-- A packet that was read has no text that is no field. -/
theorem sendable (form : disconnect.Form body) : disconnect.Sendable := by
  cases form with
  | empty => exact ⟨nofun, nofun, nofun⟩
  | reason reason => exact ⟨nofun, nofun, nofun⟩
  | @table _ properties table listed collected =>
    have each : ∀ property ∈ properties, property.Sendable := by
      intro property member
      obtain ⟨-, entries, -⟩ := listed
      obtain ⟨bytes, form⟩ := entries.exists_form property member
      obtain ⟨-, valued⟩ := form
      exact Property.sendable_of_form valued
    exact {
      serverReference := fun text found => each _ ((collected.serverReference text).mp found)
      reasonString := fun text found => each _ ((collected.reasonString text).mp found)
      userProperties := by
        intro property member
        have listed := List.mem_map_of_mem (f := Property.user) member
        rw [collected.userProperties] at listed
        exact each _ (List.mem_filter.mp listed).1 }

/-- A body that keeps to the protocol's limit leaves room for its properties behind the reason code
and the longest length field. -/
theorem reserve_le (form : disconnect.Form body) (short : body.length ≤ VarInt.maximum) :
    1 + 4 + sizeOf disconnect.properties ≤ VarInt.maximum := by
  cases form with
  | empty => decide
  | reason reason =>
    show 1 + 4 + sizeOf [] ≤ VarInt.maximum
    decide
  | table listed collected =>
    obtain ⟨declared, entries, unrepeated⟩ := listed
    have content := entries.totalSize_le fun _ _ => Property.size_le
    have room := declared.reserve_le (by
      rw [List.length_cons, List.length_append] at short
      omega)
    rw [sizeOf, totalSize_eq_of_perm (collected.properties_perm unrepeated)]
    omega

end Form

/-- What was read is written under the protocol's own limit with all of its diagnostics, and whoever
reads it has the same packet again. -/
theorem encode_of_decode {body : Bytes} {disconnect : Disconnect}
    (decoded : decode body = .ok disconnect) (short : body.length ≤ VarInt.maximum) :
    ∃ encoded,
      (∀ output, ({} : Codec).encode (.disconnect disconnect) output = (.ok (), output ++ encoded)) ∧
      disconnect.trim (disconnect.budget ({} : Codec).limit) = disconnect ∧
      disconnect.IsReadFrom encoded := by
  have form := form_of_decode decoded
  have room : 1 + 4 + (disconnect.fixedSize + sizeOf disconnect.diagnostics) ≤ VarInt.maximum := by
    rw [fixedSize, ← sizeOf_append]
    exact form.reserve_le short
  have complete : disconnect.trim (disconnect.budget VarInt.maximum) = disconnect := by
    apply trim_eq_self
    unfold budget
    omega
  have allowed : disconnect.size VarInt.maximum ≤ VarInt.maximum := by
    rw [size_le_iff]
    have field := VarInt.size_le_four disconnect.fixedSize
    omega
  obtain ⟨encoded, written, read⟩ :=
    @Codec.encode_disconnect {} disconnect form.sendable allowed allowed
  have same : disconnect.trim (disconnect.budget ({} : Codec).limit) = disconnect := complete
  rw [same] at read
  exact ⟨encoded, written, same, read⟩

/-- Integers in more bytes than they need, and properties in an order of their own. -/
def scattered : Bytes :=
  [0x82, 0x98, 0, 0x26, 0, 1, 0x6B, 0, 1, 0x76, 0x9F, 0, 0, 1, 0x72, 0x11, 0, 0, 0, 10, 0x26, 0, 1,
    0x61, 0, 1, 0x62]

def gathered : Disconnect where
  reason := .protocolError
  sessionExpiry := some 10
  reasonString := some "r"
  userProperties := [⟨"k", "v"⟩, ⟨"a", "b"⟩]

theorem encode_of_decode_scattered :
    decode scattered = .ok gathered ∧ scattered.length ≤ VarInt.maximum ∧ ∃ encoded,
      ({} : Codec).encode (.disconnect gathered) [] = (.ok (), encoded) ∧
      gathered.trim (gathered.budget ({} : Codec).limit) = gathered ∧
      gathered.IsReadFrom encoded := by
  have decoded : decode scattered = .ok gathered := by decide +kernel
  have short : scattered.length ≤ VarInt.maximum := by decide
  obtain ⟨encoded, written, complete, read⟩ := encode_of_decode decoded short
  exact ⟨decoded, short, encoded, written [], complete, read⟩

end Disconnect
end Mqtt
