/-!
Readers over a list of bytes. A reader answers with its value and the number of bytes it used, and
never claims more than there are; what it leaves is the input without them. `Reader.Reads` says
that a value is read from given bytes whatever follows.
-/
namespace Mqtt

abbrev Bytes := List UInt8

/-- Reads a value from the front of some bytes, or fails with a fault. -/
structure Reader (ε α : Type) where
  run : Bytes → Except ε (α × Nat)
  within : ∀ {bytes value used}, run bytes = .ok (value, used) → used ≤ bytes.length

namespace Reader

variable {ε δ α β γ : Type}

@[ext] theorem ext {first second : Reader ε α}
    (same : ∀ bytes, first.run bytes = second.run bytes) : first = second := by
  cases first
  cases second
  congr
  exact funext same

protected def pure (value : α) : Reader ε α where
  run _ := .ok (value, 0)
  within found := by cases found; exact Nat.zero_le _

protected def bind (first : Reader ε α) (next : α → Reader ε β) : Reader ε β where
  run bytes :=
    match first.run bytes with
    | .error fault => .error fault
    | .ok (value, used) =>
      match (next value).run (bytes.drop used) with
      | .error fault => .error fault
      | .ok (result, more) => .ok (result, used + more)
  within {bytes} result total found := by
    split at found
    · cases found
    · rename_i value used start
      split at found
      · cases found
      · rename_i more continued
        cases found
        have head := first.within start
        have tail := (next value).within continued
        rw [List.length_drop] at tail
        omega

instance : Monad (Reader ε) where
  pure := Reader.pure
  bind := Reader.bind

/-- Uses nothing: the decision depends on what was read before. -/
def ofExcept (decision : Except ε α) : Reader ε α where
  run _ := decision.map (·, 0)
  within found := by cases decision <;> cases found; exact Nat.zero_le _

def fail (fault : ε) : Reader ε α := ofExcept (.error fault)

/-- Refuses a value that was read, with the fault of the check. -/
def andThen (reader : Reader ε α) (check : α → Except ε β) : Reader ε β :=
  reader >>= fun value => ofExcept (check value)

/-- Converts what was read; a value without a counterpart is refused. -/
def mapSome (refused : ε) (convert : α → Option β) (reader : Reader ε α) : Reader ε β :=
  reader.andThen fun value =>
    match convert value with
    | some result => .ok result
    | none => .error refused

def mapError (relabel : ε → δ) (reader : Reader ε α) : Reader δ α where
  run bytes := (reader.run bytes).mapError relabel
  within {bytes value used} found := by
    cases answer : reader.run bytes with
    | error fault => rw [answer] at found; cases found
    | ok pair => rw [answer] at found; cases found; exact reader.within answer

/-- The next `count` bytes; `short` when fewer are left. -/
def take (short : ε) (count : Nat) : Reader ε Bytes where
  run bytes :=
    let chunk := bytes.take count
    if chunk.length = count then .ok (chunk, count) else .error short
  within found := by
    simp only [List.length_take] at found
    split at found
    · cases found; omega
    · cases found

@[simp] theorem run_pure (value : α) (bytes : Bytes) :
    (pure value : Reader ε α).run bytes = .ok (value, 0) := rfl

theorem run_bind (first : Reader ε α) (next : α → Reader ε β) (bytes : Bytes) :
    (first >>= next).run bytes =
      match first.run bytes with
      | .error fault => .error fault
      | .ok (value, used) =>
        match (next value).run (bytes.drop used) with
        | .error fault => .error fault
        | .ok (result, more) => .ok (result, used + more) := rfl

theorem run_bind_error {first : Reader ε α} {bytes : Bytes} {fault : ε}
    (failed : first.run bytes = .error fault) (next : α → Reader ε β) :
    (first >>= next).run bytes = .error fault := by
  rw [run_bind, failed]

theorem run_bind_ok {first : Reader ε α} {bytes : Bytes} {value : α} {used : Nat}
    (found : first.run bytes = .ok (value, used)) (next : α → Reader ε β) :
    (first >>= next).run bytes =
      ((next value).run (bytes.drop used)).map fun (result, more) => (result, used + more) := by
  rw [run_bind, found]
  dsimp only
  cases (next value).run (bytes.drop used) <;> rfl

@[simp] theorem run_mapError (relabel : ε → δ) (reader : Reader ε α) (bytes : Bytes) :
    (reader.mapError relabel).run bytes = (reader.run bytes).mapError relabel := rfl

theorem run_take (short : ε) (count : Nat) (bytes : Bytes) :
    (take short count).run bytes =
      if count ≤ bytes.length then .ok (bytes.take count, count) else .error short := by
  have same : (bytes.take count).length = count ↔ count ≤ bytes.length := by
    rw [List.length_take]; omega
  simp only [take, same]

private theorem id_map_reader (reader : Reader ε α) : id <$> reader = reader := by
  ext1 bytes
  show (reader >>= fun value => pure value).run bytes = _
  rw [run_bind]
  cases reader.run bytes <;> rfl

private theorem pure_bind_reader (value : α) (next : α → Reader ε β) :
    pure value >>= next = next value := by
  ext1 bytes
  rw [run_bind, run_pure]
  simp only [List.drop_zero, Nat.zero_add]
  cases (next value).run bytes <;> rfl

private theorem bind_assoc_reader (reader : Reader ε α) (next : α → Reader ε β)
    (last : β → Reader ε γ) : reader >>= next >>= last = reader >>= fun value => next value >>= last := by
  ext1 bytes
  simp only [run_bind]
  cases reader.run bytes with
  | error fault => rfl
  | ok pair =>
    dsimp only
    cases (next pair.1).run (bytes.drop pair.2) with
    | error fault => rfl
    | ok middle =>
      simp only [List.drop_drop]
      cases (last middle.1).run (bytes.drop (pair.2 + middle.2)) <;> simp [Nat.add_assoc]

instance : LawfulMonad (Reader ε) :=
  LawfulMonad.mk' _ id_map_reader pure_bind_reader bind_assoc_reader

/-- The reader takes `value` from exactly `encoded`, whatever follows. -/
def Reads (reader : Reader ε α) (value : α) (encoded : Bytes) : Prop :=
  ∀ rest, reader.run (encoded ++ rest) = .ok (value, encoded.length)

theorem Reads.pure (value : α) : (Pure.pure value : Reader ε α).Reads value [] := fun _ => rfl

theorem Reads.bind {first : Reader ε α} {next : α → Reader ε β} {value : α} {result : β}
    {head tail : Bytes} (start : first.Reads value head) (continued : (next value).Reads result tail) :
    (first >>= next).Reads result (head ++ tail) := by
  intro rest
  rw [List.append_assoc, run_bind_ok (start (tail ++ rest)), List.drop_left, continued rest]
  simp [Except.map]

theorem Reads.map {reader : Reader ε α} {value : α} {encoded : Bytes}
    (found : reader.Reads value encoded) (convert : α → β) :
    (convert <$> reader).Reads (convert value) encoded := by
  intro rest
  rw [← bind_pure_comp, run_bind_ok (found rest)]
  rfl

theorem Reads.andThen {reader : Reader ε α} {value : α} {encoded : Bytes} {check : α → Except ε β}
    {result : β} (found : reader.Reads value encoded) (passed : check value = .ok result) :
    (reader.andThen check).Reads result encoded := by
  intro rest
  rw [Reader.andThen, run_bind_ok (found rest), passed]
  rfl

theorem Reads.mapError {reader : Reader ε α} {value : α} {encoded : Bytes}
    (found : reader.Reads value encoded) (relabel : ε → δ) :
    (reader.mapError relabel).Reads value encoded := by
  intro rest
  rw [run_mapError, found rest]
  rfl

theorem Reads.take (short : ε) (chunk : Bytes) : (take short chunk.length).Reads chunk chunk := by
  intro rest
  rw [run_take, if_pos (by simp)]
  simp

end Reader
end Mqtt
