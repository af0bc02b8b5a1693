/-!
Looking up a value of an enumeration by its code, in a list of all values. No two values have the
same code.
-/
namespace Mqtt.Enumeration

variable {Value Code : Type} [DecidableEq Code] {values : List Value} {code : Value → Code}

/-- The codes of other values do not get in the way. -/
private theorem find?_code_of_mem {value : Value} (distinct : (values.map code).Nodup)
    (member : value ∈ values) :
    values.find? (fun other => code other == code value) = some value := by
  induction values with
  | nil => cases member
  | cons first rest ih =>
    rw [List.map_cons, List.nodup_cons] at distinct
    rcases List.mem_cons.mp member with rfl | behind
    · exact List.find?_cons_of_pos (by simp)
    · have apart : code first ≠ code value := by
        intro same
        exact distinct.1 (same ▸ List.mem_map_of_mem behind)
      rw [List.find?_cons_of_neg (by simpa using apart)]
      exact ih distinct.2 behind

/-- What is found by a code is the value that has it. -/
theorem find?_eq_some_iff (complete : ∀ value, value ∈ values) (distinct : (values.map code).Nodup)
    {value : Value} {sought : Code} :
    values.find? (fun other => code other == sought) = some value ↔ code value = sought := by
  constructor
  · intro found
    simpa using List.find?_some found
  · rintro rfl
    exact find?_code_of_mem distinct (complete value)

end Mqtt.Enumeration
