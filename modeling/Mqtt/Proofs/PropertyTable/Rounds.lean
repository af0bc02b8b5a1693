import Mqtt.Proofs.PropertyTable

/-!
The loop over a property table, round by round. A round takes an identifier and what its handler takes
for the value off the packet, until the declared bytes are used up or more than those. Of a handler
nothing is known but that it takes bytes off the front.
-/
namespace Mqtt.PropertyTable

variable {ε σ : Type}

/-- How the rounds come to their end. -/
inductive Ending (ε σ : Type)
  /-- No declared byte is missing; `left` is the packet as the handlers left it. -/
  | reached (final : σ) (left : Bytes)
  | unnamed
  | refused (fault : ε)

/-- The rounds of the loop while `missing` bytes of its table are to come: how many bytes each of them
takes, and how they end. Only the last can take more than are missing. -/
inductive Rounds (handler : Handler ε σ) : σ → Bytes → Nat → List Nat → Ending ε σ → Prop
  | reached {state : σ} {bytes : Bytes} : Rounds handler state bytes 0 [] (.reached state bytes)
  | unnamed {state : σ} {bytes : Bytes} {missing : Nat} {reason : VarInt.Fault}
      (unfinished : 0 < missing) (failed : VarInt.reader.run bytes = .error reason) :
      Rounds handler state bytes missing [] .unnamed
  | refused {state : σ} {bytes : Bytes} {missing identifier width : Nat} {fault : ε}
      (unfinished : 0 < missing) (named : VarInt.reader.run bytes = .ok (identifier, width))
      (failed : (handler state (PropertyId.ofIdentifier? identifier)).run (bytes.drop width) =
        .error fault) :
      Rounds handler state bytes missing [] (.refused fault)
  | round {state next : σ} {bytes : Bytes} {missing identifier width length : Nat}
      {sizes : List Nat} {ending : Ending ε σ}
      (unfinished : 0 < missing) (named : VarInt.reader.run bytes = .ok (identifier, width))
      (handled : (handler state (PropertyId.ofIdentifier? identifier)).run (bytes.drop width) =
        .ok (next, length))
      (behind : Rounds handler next (bytes.drop (width + length)) (missing - (width + length)) sizes
        ending) :
      Rounds handler state bytes missing ((width + length) :: sizes) ending

/-- How many handlers were called: one in each round, and the one that refused. -/
def Ending.calls (sizes : List Nat) : Ending ε σ → Nat
  | reached _ _ => sizes.length
  | unnamed => sizes.length
  | refused _ => sizes.length + 1

/-- The answer of the loop when its rounds took `taken` bytes together. -/
def Ending.answer (faults : Faults ε) (declared taken : Nat) : Ending ε σ → Except ε σ
  | reached final _ => if taken = declared then .ok final else .error faults.malformedLength
  | unnamed => .error faults.malformedId
  | refused fault => .error fault

section Loop

variable {faults : Faults ε} {handler : Handler ε σ} {state final : σ} {bytes left : Bytes}
  {declared used missing : Nat} {sizes : List Nat} {ending : Ending ε σ}

/-- The loop comes to an end, since each identifier takes a byte at least off those that are missing. -/
theorem exists_rounds (handler : Handler ε σ) (state : σ) (bytes : Bytes) (missing : Nat) :
    ∃ sizes ending, Rounds handler state bytes missing sizes ending := by
  induction missing using Nat.strongRecOn generalizing state bytes with
  | ind missing ih =>
    rcases Nat.eq_zero_or_pos missing with rfl | unfinished
    · exact ⟨[], _, .reached⟩
    · cases named : VarInt.reader.run bytes with
      | error reason => exact ⟨[], _, .unnamed unfinished named⟩
      | ok pair =>
        obtain ⟨identifier, width⟩ := pair
        have progress := VarInt.reader_progress named
        cases handled :
            (handler state (PropertyId.ofIdentifier? identifier)).run (bytes.drop width) with
        | error fault => exact ⟨[], _, .refused unfinished named handled⟩
        | ok result =>
          obtain ⟨next, length⟩ := result
          obtain ⟨sizes, ending, behind⟩ :=
            ih (missing - (width + length)) (by omega) next (bytes.drop (width + length))
          exact ⟨_, ending, .round unfinished named handled behind⟩

/-- No more handlers are called than bytes are missing. -/
theorem Rounds.calls_le (rounds : Rounds handler state bytes missing sizes ending) :
    ending.calls sizes ≤ missing := by
  induction rounds with
  | reached => exact Nat.le_refl 0
  | unnamed => exact Nat.zero_le _
  | refused unfinished => exact unfinished
  | @round _ _ _ missing _ width length sizes ending unfinished named _ _ ih =>
    have progress := VarInt.reader_progress named
    have later : ending.calls ((width + length) :: sizes) = ending.calls sizes + 1 := by
      cases ending <;> rfl
    omega

/-- The rounds go on exactly until no byte is missing, unless one of them fails. -/
theorem Rounds.reached_iff (rounds : Rounds handler state bytes missing sizes ending) :
    (∃ final left, ending = .reached final left) ↔ missing ≤ sizes.sum := by
  induction rounds with
  | reached => simp
  | unnamed unfinished => simpa using Nat.ne_of_gt unfinished
  | refused unfinished => simpa using Nat.ne_of_gt unfinished
  | round _ _ _ _ ih =>
    rw [ih, List.sum_cons]
    omega

/-- What the rounds took is what is gone from the front of the packet. -/
theorem Rounds.left_eq (rounds : Rounds handler state bytes missing sizes (.reached final left)) :
    left = bytes.drop sizes.sum := by
  generalize same : Ending.reached final left = ending at rounds
  induction rounds with
  | reached =>
    cases same
    rfl
  | unnamed => cases same
  | refused => cases same
  | round _ _ _ _ ih => rw [ih same, List.drop_drop, List.sum_cons]

theorem Rounds.entries_eq (rounds : Rounds handler state bytes (declared - used) sizes ending) :
    entries faults handler declared used state bytes =
      ending.answer faults declared (used + sizes.sum) := by
  generalize remaining : declared - used = missing at rounds
  induction rounds generalizing used with
  | reached => rw [entries, if_pos (by omega)]; rfl
  | unnamed unfinished failed => exact entries_of_error (by omega) failed
  | refused unfinished named failed =>
    rw [entries_of_ok (by omega) named, failed]
    rfl
  | round unfinished named handled _ ih =>
    rw [entries_of_ok (by omega) named, handled, List.sum_cons, ← Nat.add_assoc, ← Nat.add_assoc]
    exact ih (by omega)

end Loop

section Reading

variable {faults : Faults ε} {handler : Handler ε σ} {start final : σ} {bytes : Bytes}
  {declared width used : Nat} {sizes : List Nat} {ending : Ending ε σ}

/-- What is read of a packet whose length field and declared bytes are all there. -/
theorem Rounds.read_eq (rounds : Rounds handler start (bytes.drop width) declared sizes ending)
    (header : VarInt.reader.run bytes = .ok (declared, width))
    (enough : declared ≤ (bytes.drop width).length) :
    (read faults handler start).run bytes =
      (ending.answer faults declared sizes.sum).map (·, width + declared) := by
  have loop : entries faults handler declared 0 start (bytes.drop width) =
      ending.answer faults declared (0 + sizes.sum) := rounds.entries_eq
  rw [Nat.zero_add] at loop
  simp only [read, header, if_neg (Nat.not_lt.mpr enough), loop]

/-- A table that was read had rounds that all succeeded, and ended where the table does. -/
theorem Rounds.exact_of_read (rounds : Rounds handler start (bytes.drop width) declared sizes ending)
    (header : VarInt.reader.run bytes = .ok (declared, width))
    (enough : declared ≤ (bytes.drop width).length)
    (found : (read faults handler start).run bytes = .ok (final, used)) :
    used = width + declared ∧ sizes.sum = declared ∧ ending = .reached final (bytes.drop used) := by
  rw [rounds.read_eq header enough] at found
  cases ending with
  | unnamed => cases found
  | refused fault => cases found
  | reached state left =>
    obtain rfl := rounds.left_eq
    simp only [Ending.answer] at found
    split at found
    · rename_i filled
      cases found
      rw [List.drop_drop, filled]
      exact ⟨rfl, rfl, rfl⟩
    · cases found

theorem read_eq_ok_iff :
    (read faults handler start).run bytes = .ok (final, used) ↔
      ∃ declared width sizes, VarInt.reader.run bytes = .ok (declared, width) ∧
        declared ≤ (bytes.drop width).length ∧ used = width + declared ∧ sizes.sum = declared ∧
        Rounds handler start (bytes.drop width) declared sizes (.reached final (bytes.drop used)) := by
  constructor
  · intro found
    cases header : VarInt.reader.run bytes with
    | error reason => simp only [read, header] at found; cases found
    | ok pair =>
      obtain ⟨declared, width⟩ := pair
      by_cases enough : declared ≤ (bytes.drop width).length
      · obtain ⟨sizes, ending, rounds⟩ := exists_rounds handler start (bytes.drop width) declared
        obtain ⟨extent, filled, rfl⟩ := rounds.exact_of_read header enough found
        exact ⟨declared, width, sizes, rfl, enough, extent, filled, rounds⟩
      · cases (read_error_of_short header (Nat.not_le.mp enough)).symm.trans found
  · rintro ⟨declared, width, sizes, header, enough, rfl, filled, rounds⟩
    rw [rounds.read_eq header enough, Ending.answer, if_pos filled]
    rfl

/-- Rounds that take more than the table has are a malformed length, whatever they took it for. -/
theorem Rounds.read_error_of_lt
    (rounds : Rounds handler start (bytes.drop width) declared sizes ending)
    (header : VarInt.reader.run bytes = .ok (declared, width))
    (enough : declared ≤ (bytes.drop width).length) (beyond : declared < sizes.sum) :
    (read faults handler start).run bytes = .error faults.malformedLength := by
  obtain ⟨final, left, rfl⟩ := rounds.reached_iff.mpr (Nat.le_of_lt beyond)
  rw [rounds.read_eq header enough, Ending.answer, if_neg (Nat.ne_of_gt beyond)]
  rfl

end Reading

/-- Whatever the handlers do with the bytes behind their identifiers, the loop ends with no more calls
than bytes are declared, and what is read is the answer of its rounds. A table is read when they all
succeed and take exactly the declared bytes: then the packet is left as it is behind the table. Rounds
that take more are a malformed length. -/
theorem read_outcomes (faults : Faults ε) (handler : Handler ε σ) (start : σ) (bytes : Bytes) :
    (∀ final used, (read faults handler start).run bytes = .ok (final, used) ↔
      ∃ declared width sizes, VarInt.reader.run bytes = .ok (declared, width) ∧
        declared ≤ (bytes.drop width).length ∧ used = width + declared ∧ sizes.sum = declared ∧
        Rounds handler start (bytes.drop width) declared sizes
          (.reached final (bytes.drop used))) ∧
    ∀ declared width, VarInt.reader.run bytes = .ok (declared, width) →
      (∃ sizes ending, Rounds handler start (bytes.drop width) declared sizes ending) ∧
      ∀ sizes ending, Rounds handler start (bytes.drop width) declared sizes ending →
        ending.calls sizes ≤ declared ∧
        (declared ≤ (bytes.drop width).length →
          (read faults handler start).run bytes =
            (ending.answer faults declared sizes.sum).map (·, width + declared) ∧
          (declared < sizes.sum →
            (read faults handler start).run bytes = .error faults.malformedLength)) := by
  refine ⟨fun final used => read_eq_ok_iff, fun declared width header => ?_⟩
  refine ⟨exists_rounds handler start (bytes.drop width) declared, fun sizes ending rounds => ?_⟩
  refine ⟨rounds.calls_le, fun enough => ?_⟩
  exact ⟨rounds.read_eq header enough, rounds.read_error_of_lt header enough⟩

end Mqtt.PropertyTable
