import Mqtt.PropertyId
import Mqtt.Wire.VarInt

/-!
Property tables: a length, and then identifiers each followed by its value. Values are read from
the packet and not from a view clipped to the table, so identifiers and values have to use up the
declared length exactly.
-/
namespace Mqtt.PropertyTable

variable {ε σ : Type}

/-- How a packet type reports the faults of the table itself. -/
structure Faults (ε : Type) where
  malformedLength : ε
  tooShort : ε
  malformedId : ε

/-- Reads the value behind an identifier; `none` stands for an identifier that no property has. -/
abbrev Handler (ε σ : Type) := σ → Option PropertyId → Reader ε σ

/-- Reads properties until `declared` bytes are used, of which `used` are behind already. -/
def entries (faults : Faults ε) (handler : Handler ε σ) (declared used : Nat) (state : σ)
    (bytes : Bytes) : Except ε σ :=
  if declared ≤ used then
    if used = declared then .ok state else .error faults.malformedLength
  else
    match _found : VarInt.reader.run bytes with
    | .error _ => .error faults.malformedId
    | .ok (identifier, width) =>
      match (handler state (PropertyId.ofIdentifier? identifier)).run (bytes.drop width) with
      | .error fault => .error fault
      | .ok (next, length) =>
        entries faults handler declared (used + width + length) next (bytes.drop (width + length))
termination_by declared - used
decreasing_by
  have progress := VarInt.reader_progress _found
  omega

def read (faults : Faults ε) (handler : Handler ε σ) (start : σ) : Reader ε σ where
  run bytes :=
    match VarInt.reader.run bytes with
    | .error _ => .error faults.malformedLength
    | .ok (declared, width) =>
      let table := bytes.drop width
      if table.length < declared then .error faults.tooShort
      else (entries faults handler declared 0 start table).map (·, width + declared)
  within {bytes final used} found := by
    cases header : VarInt.reader.run bytes with
    | error fault => simp only [header] at found; cases found
    | ok pair =>
      obtain ⟨declared, width⟩ := pair
      simp only [header, List.length_drop] at found
      split at found
      · cases found
      · rename_i enough
        have inside := VarInt.reader.within header
        cases answer : entries faults handler declared 0 start (bytes.drop width) with
        | error fault => rw [answer] at found; cases found
        | ok state => rw [answer] at found; cases found; omega

end Mqtt.PropertyTable
