import Mqtt.Wire.Reader

/-!
Which faults a reader can report. The combinators of readers report the faults of their parts and
the ones they were given.
-/
namespace Mqtt.Reader

variable {ε δ α β : Type} {reader : Reader ε α} {possible : ε → Prop}

theorem run_map_error {bytes : Bytes} {fault : ε} (failed : reader.run bytes = .error fault)
    (convert : α → β) : (convert <$> reader).run bytes = .error fault := by
  rw [← bind_pure_comp]
  exact run_bind_error failed _

theorem run_mapError_error {bytes : Bytes} {fault : ε} (failed : reader.run bytes = .error fault)
    (relabel : ε → δ) : (reader.mapError relabel).run bytes = .error (relabel fault) := by
  rw [run_mapError, failed]
  rfl

theorem run_mapSome_error {bytes : Bytes} {fault : ε} (failed : reader.run bytes = .error fault)
    (refused : ε) (convert : α → Option β) :
    (reader.mapSome refused convert).run bytes = .error fault :=
  run_bind_error failed _

/-- A value that was read and does not pass the check. -/
theorem Reads.andThen_error {value : α} {encoded : Bytes} {check : α → Except ε β} {fault : ε}
    (found : reader.Reads value encoded) (refused : check value = .error fault) (rest : Bytes) :
    (reader.andThen check).run (encoded ++ rest) = .error fault := by
  rw [Reader.andThen, run_bind_ok (found rest), refused]
  rfl

/-- A value that was read and has no counterpart. -/
theorem Reads.mapSome_error {value : α} {encoded : Bytes} {convert : α → Option β}
    (found : reader.Reads value encoded) (refused : ε) (missing : convert value = none)
    (rest : Bytes) : (reader.mapSome refused convert).run (encoded ++ rest) = .error refused :=
  found.andThen_error (by rw [missing]) rest

/-- Every fault that the reader reports is one of the possible ones. -/
def FailsWithin (reader : Reader ε α) (possible : ε → Prop) : Prop :=
  ∀ bytes fault, reader.run bytes = .error fault → possible fault

namespace FailsWithin

protected theorem pure (value : α) : (Pure.pure value : Reader ε α).FailsWithin possible := by
  intro bytes fault failed
  cases failed

protected theorem fail {fault : ε} (allowed : possible fault) :
    (Reader.fail fault : Reader ε α).FailsWithin possible := by
  intro bytes reported failed
  cases failed
  exact allowed

protected theorem bind {next : α → Reader ε β} (first : reader.FailsWithin possible)
    (following : ∀ value, (next value).FailsWithin possible) :
    (reader >>= next).FailsWithin possible := by
  intro bytes fault failed
  cases start : reader.run bytes with
  | error reported =>
    rw [run_bind_error start] at failed
    cases failed
    exact first bytes fault start
  | ok pair =>
    rw [run_bind_ok start] at failed
    cases continued : (next pair.1).run (bytes.drop pair.2) with
    | error reported =>
      rw [continued] at failed
      cases failed
      exact following pair.1 _ fault continued
    | ok last =>
      rw [continued] at failed
      cases failed

protected theorem map (inner : reader.FailsWithin possible) (convert : α → β) :
    (convert <$> reader).FailsWithin possible := by
  rw [← bind_pure_comp]
  exact inner.bind fun value => FailsWithin.pure (convert value)

protected theorem mapSome {refused : ε} (inner : reader.FailsWithin possible)
    (allowed : possible refused) (convert : α → Option β) :
    (reader.mapSome refused convert).FailsWithin possible := by
  refine inner.bind fun value => ?_
  dsimp only
  cases convert value with
  | none => exact FailsWithin.fail allowed
  | some result => exact FailsWithin.pure result

/-- With all faults relabelled as one, nothing else is reported. -/
protected theorem mapError {label : ε} (allowed : possible label) (reader : Reader δ α) :
    (reader.mapError fun _ => label).FailsWithin possible := by
  intro bytes fault failed
  rw [run_mapError] at failed
  cases answer : reader.run bytes with
  | error reported =>
    rw [answer] at failed
    cases failed
    exact allowed
  | ok pair =>
    rw [answer] at failed
    cases failed

end FailsWithin
end Mqtt.Reader
