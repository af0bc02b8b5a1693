import Mqtt.Proofs.PropertyTable

/-!
Why a property table is refused. The loop over a table fails exactly where it is stopped behind steps
that succeeded: by an identifier, by a handler, or by a property that reaches beyond the table. For a
schema, the steps in front of the fault are a list of well-formed properties.
-/
namespace Mqtt.PropertyTable

variable {ε σ : Type}

/-- What keeps the loop from going on when `missing` bytes are left of its table. -/
inductive Stops (faults : Faults ε) (handler : Handler ε σ) (state : σ) (bytes : Bytes)
    (missing : Nat) : ε → Prop
  | unnamed {reason : VarInt.Fault} (failed : VarInt.reader.run bytes = .error reason) :
      Stops faults handler state bytes missing faults.malformedId
  | refused {identifier width : Nat} {fault : ε}
      (named : VarInt.reader.run bytes = .ok (identifier, width))
      (failed : (handler state (PropertyId.ofIdentifier? identifier)).run (bytes.drop width) =
        .error fault) :
      Stops faults handler state bytes missing fault
  | overrun {identifier width length : Nat} {next : σ}
      (named : VarInt.reader.run bytes = .ok (identifier, width))
      (handled : (handler state (PropertyId.ofIdentifier? identifier)).run (bytes.drop width) =
        .ok (next, length))
      (beyond : missing < width + length) :
      Stops faults handler state bytes missing faults.malformedLength

section Loop

variable {faults : Faults ε} {handler : Handler ε σ} {declared used : Nat} {state : σ}
  {bytes : Bytes} {fault : ε}

private theorem entries_of_overrun (overrun : declared < used) :
    entries faults handler declared used state bytes = .error faults.malformedLength := by
  rw [entries, if_pos (Nat.le_of_lt overrun), if_neg (Nat.ne_of_gt overrun)]

private theorem entries_of_stops (unfinished : used < declared)
    (stops : Stops faults handler state bytes (declared - used) fault) :
    entries faults handler declared used state bytes = .error fault := by
  have remains := Nat.not_le.mpr unfinished
  cases stops with
  | unnamed failed => exact entries_of_error remains failed
  | refused named failed =>
    rw [entries_of_ok remains named, failed]
    rfl
  | overrun named handled beyond =>
    rw [entries_of_ok remains named, handled]
    exact entries_of_overrun (by omega)

/-- The loop fails with the fault that stops it behind the steps it could make. -/
theorem entries_eq_error_iff (inside : used ≤ declared) :
    entries faults handler declared used state bytes = .error fault ↔
      ∃ size middle, used + size < declared ∧ Steps handler state bytes size middle ∧
        Stops faults handler middle (bytes.drop size) (declared - (used + size)) fault := by
  constructor
  · intro failed
    induction used, state, bytes using entries.induct handler declared with
    | case1 state bytes reached =>
      rw [entries, if_pos reached, if_pos rfl] at failed
      cases failed
    | case2 used state bytes reached apart => exact absurd (Nat.le_antisymm inside reached) apart
    | case3 used state bytes unfinished reason unnamed =>
      rw [entries_of_error unfinished unnamed] at failed
      cases failed
      exact ⟨0, state, Nat.not_le.mp unfinished, .done, .unnamed unnamed⟩
    | case4 used state bytes unfinished identifier width named reason refused =>
      rw [entries_of_ok unfinished named, refused] at failed
      cases failed
      exact ⟨0, state, Nat.not_le.mp unfinished, .done, .refused named refused⟩
    | case5 used state bytes unfinished identifier width named next length handled ih =>
      rw [entries_of_ok unfinished named, handled] at failed
      -- The property that was read may itself be the one that reaches beyond the table.
      by_cases fits : used + width + length ≤ declared
      · obtain ⟨size, middle, room, steps, stops⟩ := ih fits failed
        refine ⟨width + length + size, middle, by omega, .step named handled steps, ?_⟩
        rw [← List.drop_drop, ← Nat.add_assoc, ← Nat.add_assoc]
        exact stops
      · have exceeded : entries faults handler declared (used + width + length) next
            (bytes.drop (width + length)) = .error faults.malformedLength :=
          entries_of_overrun (Nat.not_le.mp fits)
        cases exceeded.symm.trans failed
        exact ⟨0, state, Nat.not_le.mp unfinished, .done, .overrun named handled (by omega)⟩
  · rintro ⟨size, middle, room, steps, stops⟩
    induction steps generalizing used with
    | done => exact entries_of_stops room stops
    | @step state next final bytes identifier width length size named handled rest ih =>
      have progress := VarInt.reader_progress named
      rw [entries_of_ok (by omega) named, handled]
      rw [← List.drop_drop, ← Nat.add_assoc, ← Nat.add_assoc] at stops
      exact ih (by omega) (by omega) stops

end Loop
end Mqtt.PropertyTable

namespace Mqtt.PropertySchema

variable {ε α : Type} {schema : PropertySchema ε α} {valueForm : α → Bytes → Prop}

theorem Unrepeated.behind {front later : List α} {property : α}
    (unrepeated : schema.Unrepeated (front ++ property :: later)) :
    schema.Unrepeated front ∧ ∀ earlier ∈ front.reverse, schema.Compatible property earlier := by
  obtain ⟨together, -, across⟩ := List.pairwise_append.mp unrepeated
  refine ⟨together, fun earlier member => ?_⟩
  exact symm (across earlier (List.mem_reverse.mp member) property List.mem_cons_self)

section Reading

variable {properties : List α} {entries length rest : Bytes} {declared : Nat} {fault : ε}

/-- Behind well-formed properties of a table that announces more than those, whatever stops the loop
next is what the table is refused with. -/
theorem read_error_of_stops (described : schema.Describes valueForm)
    (spelled : VarInt.Form declared length)
    (listed : Concatenation (schema.EntryForm valueForm) properties entries)
    (unrepeated : schema.Unrepeated properties) (reaches : entries.length < declared)
    (enough : declared ≤ (entries ++ rest).length)
    (stops : PropertyTable.Stops schema.faults schema.handler properties.reverse rest
      (declared - entries.length) fault) :
    schema.read.run (length ++ (entries ++ rest)) = .error fault := by
  have steps : PropertyTable.Steps schema.handler [] (entries ++ rest) entries.length
      properties.reverse := by
    refine (steps_iff described List.Pairwise.nil).mpr
      ⟨properties, entries, rest, rfl, rfl, listed, (List.append_nil _).symm, ?_⟩
    exact unrepeated_reverse.mpr unrepeated
  have failed : PropertyTable.entries schema.faults schema.handler declared 0 [] (entries ++ rest) =
      .error fault := by
    refine (PropertyTable.entries_eq_error_iff (Nat.zero_le declared)).mpr
      ⟨entries.length, _, by omega, steps, ?_⟩
    rwa [List.drop_left, Nat.zero_add]
  have header := VarInt.reader_recognizes.complete spelled (entries ++ rest)
  apply Reader.run_map_error
  simp only [PropertyTable.read, header, List.drop_left, if_neg (Nat.not_lt.mpr enough), failed]
  rfl

theorem read_tooShort {table : Bytes} (spelled : VarInt.Form declared length)
    (short : table.length < declared) :
    schema.read.run (length ++ table) = .error schema.faults.tooShort := by
  have header := VarInt.reader_recognizes.complete spelled table
  apply Reader.run_map_error
  apply PropertyTable.read_error_of_short header
  rwa [List.drop_left]

end Reading

section Stopping

variable {behind : List α} {name rest : Bytes} {missing : Nat} {id : PropertyId}
  {reader : Reader ε α}

theorem stops_of_unexpected {number : Nat} (named : VarInt.Form number name)
    (foreign : ∀ id, PropertyId.ofIdentifier? number = some id → schema.value? id = none) :
    PropertyTable.Stops schema.faults schema.handler behind (name ++ rest) missing
      schema.unexpected := by
  have found := VarInt.reader_recognizes.complete named rest
  refine .refused found ?_
  cases known : PropertyId.ofIdentifier? number with
  | none => rfl
  | some id =>
    rw [handler_of_unsupported (foreign id known)]
    rfl

theorem stops_of_repeated {earlier : α} (member : earlier ∈ behind)
    (supported : (schema.value? (schema.id earlier)).isSome)
    (single : (schema.id earlier).mayRepeat = false)
    (named : VarInt.Form (schema.id earlier).code.toNat name) :
    PropertyTable.Stops schema.faults schema.handler behind (name ++ rest) missing
      schema.repeated := by
  have found := VarInt.reader_recognizes.complete named rest
  obtain ⟨reader, present⟩ := Option.isSome_iff_exists.mp supported
  refine .refused found ?_
  rw [PropertyId.ofIdentifier?_code, handler_of_repeated present member rfl single]
  rfl

theorem stops_of_value {fault : ε} (supported : schema.value? id = some reader)
    (fresh : ∀ earlier ∈ behind, schema.id earlier = id → id.mayRepeat)
    (named : VarInt.Form id.code.toNat name) (failed : reader.run rest = .error fault) :
    PropertyTable.Stops schema.faults schema.handler behind (name ++ rest) missing fault := by
  have found := VarInt.reader_recognizes.complete named rest
  refine .refused found ?_
  rw [PropertyId.ofIdentifier?_code, List.drop_left, handler_of_fresh supported fresh]
  exact Reader.run_map_error failed _

theorem stops_of_overrun (described : schema.Describes valueForm) {property : α} {entry : Bytes}
    (spelled : schema.EntryForm valueForm property entry)
    (compatible : ∀ earlier ∈ behind, schema.Compatible property earlier)
    (beyond : missing < entry.length) :
    PropertyTable.Stops schema.faults schema.handler behind (entry ++ rest) missing
      schema.faults.malformedLength := by
  obtain ⟨named, valued⟩ := spelled
  rename_i name value
  have found := VarInt.reader_recognizes.complete named (value ++ rest)
  have handled : (schema.handler behind (PropertyId.ofIdentifier? (schema.id property).code.toNat)).run
      ((name ++ (value ++ rest)).drop name.length) = .ok (property :: behind, value.length) := by
    rw [PropertyId.ofIdentifier?_code, List.drop_left]
    exact (handler_recognizes described behind (some (schema.id property))).complete
      ⟨property, rfl, rfl, compatible, valued⟩ rest
  rw [List.length_append] at beyond
  rw [List.append_assoc]
  exact .overrun found handled beyond

end Stopping
end Mqtt.PropertySchema
