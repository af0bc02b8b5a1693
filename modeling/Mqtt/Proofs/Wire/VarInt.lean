import Mathlib.Data.Nat.Digits.Defs
import Mqtt.Proofs.Wire.Recognition
import Mqtt.Wire.VarInt

/-!
The forms of variable byte integers. A number has a shortest form, which is the one that is
written, and up to three longer ones that are read as well.
-/
namespace Mqtt.VarInt

/-- Seven bits a byte, the lowest first. -/
def value (bytes : Bytes) : Nat := Nat.ofDigits 128 (bytes.map fun byte => byte.toNat % 128)

/-- One to four bytes that stand for a number: all but the last have their high bit set. -/
inductive Form : Nat → Bytes → Prop
  | bytes {initial : Bytes} {last : UInt8} (continued : ∀ byte ∈ initial, 128 ≤ byte)
      (ended : last < 128) (short : initial.length ≤ 3) :
      Form (value (initial ++ [last])) (initial ++ [last])

theorem value_cons (byte : UInt8) (rest : Bytes) :
    value (byte :: rest) = byte.toNat % 128 + 128 * value rest := by
  simp [value, Nat.ofDigits_cons]

theorem value_concat (bytes : Bytes) (byte : UInt8) :
    value (bytes ++ [byte]) = value bytes + 128 ^ bytes.length * (byte.toNat % 128) := by
  simp [value, Nat.ofDigits_append, Nat.ofDigits_singleton]

private theorem toNat_mod_of_lt {byte : UInt8} (low : byte < 128) : byte.toNat % 128 = byte.toNat :=
  Nat.mod_eq_of_lt (UInt8.lt_iff_toNat_lt.mp low)

private theorem toNat_mod_of_le {byte : UInt8} (high : 128 ≤ byte) :
    byte.toNat % 128 = byte.toNat - 128 := by
  have bound := byte.toNat_lt
  have large : 128 ≤ byte.toNat := UInt8.le_iff_toNat_le.mp high
  omega

/-- What was read is the last byte with its high bit unset, and the bytes in front of it. -/
private theorem decode_spelled {more : Nat} {bytes : Bytes} {number used : Nat}
    (found : decode more bytes = .ok (number, used)) :
    ∃ initial last, bytes.take used = initial ++ [last] ∧ (∀ byte ∈ initial, 128 ≤ byte) ∧
      last < 128 ∧ initial.length ≤ more ∧ number = value (initial ++ [last]) := by
  induction bytes generalizing more number used with
  | nil => simp [decode] at found
  | cons byte rest ih =>
    simp only [decode] at found
    split at found
    · rename_i low
      cases found
      refine ⟨[], byte, rfl, by simp, low, Nat.zero_le _, ?_⟩
      simp [value, Nat.ofDigits_singleton, toNat_mod_of_lt low]
    · rename_i high
      cases more with
      | zero => cases found
      | succ more =>
        cases answer : decode more rest with
        | error fault => simp only [answer, Except.map] at found; cases found
        | ok pair =>
          simp only [answer, Except.map] at found
          cases found
          obtain ⟨initial, last, taken, continued, ended, short, same⟩ := ih answer
          have large := UInt8.not_lt.mp high
          refine ⟨byte :: initial, last, by simp [taken], ?_, ended, by simpa using short, ?_⟩
          · simpa using ⟨large, continued⟩
          · rw [List.cons_append, value_cons, ← same, toNat_mod_of_le large]

private theorem decode_form {more : Nat} {initial : Bytes} {last : UInt8}
    (continued : ∀ byte ∈ initial, 128 ≤ byte) (ended : last < 128) (short : initial.length ≤ more)
    (rest : Bytes) :
    decode more (initial ++ [last] ++ rest) =
      .ok (value (initial ++ [last]), (initial ++ [last]).length) := by
  induction initial generalizing more with
  | nil => simp [decode, ended, value, Nat.ofDigits_singleton, toNat_mod_of_lt ended]
  | cons byte initial ih =>
    cases more with
    | zero => simp at short
    | succ more =>
      have large : 128 ≤ byte := continued byte (by simp)
      have behind := ih (fun byte member => continued byte (by simp [member]))
        (Nat.le_of_succ_le_succ short)
      simp only [List.cons_append, decode, if_neg (UInt8.not_lt.mpr large)]
      rw [behind, value_cons, toNat_mod_of_le large]
      rfl

theorem reader_recognizes : reader.Recognizes Form where
  sound found := by
    obtain ⟨initial, last, taken, continued, ended, short, same⟩ := decode_spelled found
    rw [taken, same]
    exact .bytes continued ended short
  complete := by
    intro number encoded given rest
    obtain ⟨continued, ended, short⟩ := given
    exact decode_form continued ended short rest

/-- The bytes are too many when as many as there may be all say that more follow. -/
theorem decode_eq_tooLong_iff {more : Nat} {bytes : Bytes} :
    decode more bytes = .error .tooLong ↔
      ∃ front rest, bytes = front ++ rest ∧ front.length = more + 1 ∧ ∀ byte ∈ front, 128 ≤ byte := by
  induction bytes generalizing more with
  | nil =>
    constructor
    · intro failed
      simp [decode] at failed
    · rintro ⟨front, rest, parts, width, -⟩
      simp [(List.nil_eq_append_iff.mp parts).1] at width
  | cons byte bytes ih =>
    by_cases low : byte < 128
    · constructor
      · intro failed
        simp [decode, low] at failed
      · rintro ⟨front, rest, parts, width, continued⟩
        obtain ⟨first, front, rfl⟩ := List.exists_cons_of_length_eq_add_one width
        obtain ⟨rfl, -⟩ := List.cons.inj parts
        exact absurd (continued byte List.mem_cons_self) (UInt8.not_le.mpr low)
    · have high : 128 ≤ byte := UInt8.not_lt.mp low
      cases more with
      | zero =>
        simp only [decode, if_neg low, true_iff]
        exact ⟨[byte], bytes, rfl, rfl, by simpa using high⟩
      | succ more =>
        have inner : decode (more + 1) (byte :: bytes) = .error .tooLong ↔
            decode more bytes = .error .tooLong := by
          simp only [decode, if_neg low]
          cases decode more bytes <;> simp [Except.map]
        rw [inner, ih]
        constructor
        · rintro ⟨front, rest, rfl, width, continued⟩
          exact ⟨byte :: front, rest, rfl, by rw [List.length_cons, width],
            List.forall_mem_cons.mpr ⟨high, continued⟩⟩
        · rintro ⟨front, rest, parts, width, continued⟩
          obtain ⟨first, front, rfl⟩ := List.exists_cons_of_length_eq_add_one width
          obtain ⟨rfl, rfl⟩ := List.cons.inj parts
          exact ⟨front, rest, rfl, Nat.succ.inj width, (List.forall_mem_cons.mp continued).2⟩

/-- An integer ends behind the bytes when there are not as many as there may be and all of them say that
more follow. -/
theorem decode_eq_incomplete_iff {more : Nat} {bytes : Bytes} :
    decode more bytes = .error .incomplete ↔ bytes.length ≤ more ∧ ∀ byte ∈ bytes, 128 ≤ byte := by
  induction bytes generalizing more with
  | nil => simp [decode]
  | cons byte bytes ih =>
    by_cases low : byte < 128
    · have first : ¬ 128 ≤ byte := UInt8.not_le.mpr low
      simp [decode, low, first]
    · have high : 128 ≤ byte := UInt8.not_lt.mp low
      cases more with
      | zero => simp [decode, low]
      | succ more =>
        have inner : decode (more + 1) (byte :: bytes) = .error .incomplete ↔
            decode more bytes = .error .incomplete := by
          simp only [decode, if_neg low]
          cases decode more bytes <;> simp [Except.map]
        rw [inner, ih, List.length_cons, List.forall_mem_cons]
        simp [high]

private theorem decode_append {more : Nat} {bytes : Bytes}
    (settled : decode more bytes ≠ .error .incomplete) (rest : Bytes) :
    decode more (bytes ++ rest) = decode more bytes := by
  induction bytes generalizing more with
  | nil => exact absurd (decode.eq_def more []) settled
  | cons byte bytes ih =>
    simp only [List.cons_append, decode] at settled ⊢
    split
    · rfl
    · rename_i high
      rw [if_neg high] at settled
      cases more with
      | zero => rfl
      | succ more =>
        have inner : decode more bytes ≠ .error .incomplete := by
          intro unfinished
          simp [unfinished, Except.map] at settled
        simp only [ih inner]

/-- Once there is an integer or a fault, later bytes do not change it. -/
theorem peek_append {bytes : Bytes} (settled : peek bytes ≠ .ok none) (rest : Bytes) :
    peek (bytes ++ rest) = peek bytes := by
  have inner : decode 3 bytes ≠ .error .incomplete := by
    intro unfinished
    simp [peek, reader, unfinished] at settled
  simp only [peek, reader, decode_append inner rest]

theorem size_pos (number : Nat) : 0 < size number := by
  unfold size
  repeat' split
  all_goals omega

theorem size_le_four (number : Nat) : size number ≤ 4 := by
  unfold size
  repeat' split
  all_goals omega

theorem Form.length_pos {number : Nat} {encoded : Bytes} (form : Form number encoded) :
    0 < encoded.length := by
  cases form
  simp

theorem value_lt (bytes : Bytes) : value bytes < 128 ^ bytes.length := by
  induction bytes with
  | nil => exact Nat.one_pos
  | cons byte rest ih =>
    have low : byte.toNat % 128 < 128 := Nat.mod_lt _ (by decide)
    rw [value_cons, List.length_cons, Nat.pow_succ]
    omega

/-- No form is shorter than the size of the number. -/
theorem Form.size_le {number : Nat} {encoded : Bytes} (form : Form number encoded) :
    size number ≤ encoded.length := by
  obtain @⟨initial, last, -, -, short⟩ := form
  have bound := value_lt (initial ++ [last])
  have length : (initial ++ [last]).length = initial.length + 1 := by simp
  rw [length] at bound ⊢
  generalize value (initial ++ [last]) = number at bound ⊢
  generalize initial.length = more at short bound ⊢
  have widths : more = 0 ∨ more = 1 ∨ more = 2 ∨ more = 3 := by omega
  rcases widths with rfl | rfl | rfl | rfl
  all_goals
    unfold size
    repeat' split
    all_goals omega

theorem Form.le_maximum {number : Nat} {encoded : Bytes} (form : Form number encoded) :
    number ≤ maximum := by
  obtain @⟨initial, last, -, -, short⟩ := form
  have bound := value_lt (initial ++ [last])
  have width : (initial ++ [last]).length ≤ 4 := by
    rw [List.length_append]
    exact Nat.succ_le_succ short
  have power : 128 ^ (initial ++ [last]).length ≤ 128 ^ 4 := Nat.pow_le_pow_right (by decide) width
  unfold maximum
  omega

theorem size_mono {small large : Nat} (smaller : small ≤ large) : size small ≤ size large := by
  unfold size
  repeat' split
  all_goals omega

/-- The bytes that are written are a form of the number. -/
theorem form_encode {number : Nat} (fits : number ≤ maximum) : Form number (encode number) := by
  have read := reads_encode fits []
  simpa using reader_recognizes.sound read

private theorem eq_of_value {initial others : Bytes} {last final : UInt8}
    (continued : ∀ byte ∈ initial, 128 ≤ byte) (also : ∀ byte ∈ others, 128 ≤ byte)
    (ended : last < 128) (closed : final < 128) (length : initial.length = others.length)
    (same : value (initial ++ [last]) = value (others ++ [final])) :
    initial ++ [last] = others ++ [final] := by
  induction initial generalizing others with
  | nil =>
    obtain rfl := List.length_eq_zero_iff.mp length.symm
    simp only [List.nil_append, value, List.map_cons, List.map_nil, Nat.ofDigits_singleton,
      toNat_mod_of_lt ended, toNat_mod_of_lt closed] at same
    rw [UInt8.toNat_inj.mp same]
  | cons byte initial ih =>
    obtain ⟨other, others, rfl⟩ := List.exists_cons_of_length_eq_add_one length.symm
    obtain ⟨high, continued⟩ := List.forall_mem_cons.mp continued
    obtain ⟨large, also⟩ := List.forall_mem_cons.mp also
    simp only [List.cons_append, value_cons] at same ⊢
    have low : byte.toNat % 128 = other.toNat % 128 := by omega
    have behind : value (initial ++ [last]) = value (others ++ [final]) := by omega
    rw [toNat_mod_of_le high, toNat_mod_of_le large] at low
    have first : byte = other := by
      have bound : 128 ≤ byte.toNat := UInt8.le_iff_toNat_le.mp high
      have also : 128 ≤ other.toNat := UInt8.le_iff_toNat_le.mp large
      exact UInt8.toNat_inj.mp (by omega)
    rw [first, ih continued also (Nat.succ.inj length) behind]

/-- Of one length, a number has no two forms. -/
theorem Form.eq_of_length {number : Nat} {first second : Bytes} (one : Form number first)
    (two : Form number second) (length : first.length = second.length) : first = second := by
  generalize same : number = other at two
  obtain ⟨continued, ended, -⟩ := one
  obtain ⟨also, closed, -⟩ := two
  simp only [List.length_append, List.length_singleton, Nat.add_right_cancel_iff] at length
  exact eq_of_value continued also ended closed length same

end Mqtt.VarInt
