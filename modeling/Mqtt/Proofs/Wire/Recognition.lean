import Mqtt.Wire.Reader

/-!
What a reader accepts, as a relation between values and the bytes that stand for them. A reader
recognizes a form when it takes exactly the related bytes off its input, whatever follows, and
fails on all other input. The combinators of readers combine the forms.
-/
namespace Mqtt.Reader

variable {ε δ α β : Type}

structure Recognizes (reader : Reader ε α) (form : α → Bytes → Prop) : Prop where
  sound : ∀ {bytes value used}, reader.run bytes = .ok (value, used) →
    form value (bytes.take used)
  complete : ∀ {value encoded}, form value encoded → reader.Reads value encoded

namespace Recognizes

/-- A successful run splits its input into the bytes of the form and the bytes behind them. -/
theorem split {reader : Reader ε α} {form : α → Bytes → Prop} {bytes : Bytes} {value : α}
    {used : Nat} (known : reader.Recognizes form) (found : reader.run bytes = .ok (value, used)) :
    ∃ encoded, bytes = encoded ++ bytes.drop used ∧ encoded.length = used ∧ form value encoded := by
  refine ⟨bytes.take used, (List.take_append_drop used bytes).symm, ?_, known.sound found⟩
  rw [List.length_take, Nat.min_eq_left (reader.within found)]

/-- Of the bytes in front of an input, only one start can be in the form. -/
theorem unique {reader : Reader ε α} {form : α → Bytes → Prop} {first second : α}
    {head other tail rest : Bytes} (known : reader.Recognizes form) (one : form first head)
    (two : form second other) (same : head ++ tail = other ++ rest) :
    first = second ∧ head = other ∧ tail = rest := by
  have found := known.complete one tail
  rw [same, known.complete two rest] at found
  obtain ⟨value, width⟩ := Prod.mk.inj (Except.ok.inj found)
  exact ⟨value.symm, List.append_inj same width.symm⟩

/-- Bytes in the form are not read before the last of them is there. -/
theorem error_of_cut {reader : Reader ε α} {form : α → Bytes → Prop} {value : α} {encoded : Bytes}
    {kept : Nat} (known : reader.Recognizes form) (spelled : form value encoded)
    (cut : kept < encoded.length) : ∃ fault, reader.run (encoded.take kept) = .error fault := by
  cases answer : reader.run (encoded.take kept) with
  | error fault => exact ⟨fault, rfl⟩
  | ok pair =>
    obtain ⟨early, used⟩ := pair
    obtain ⟨start, parts, width, form⟩ := known.split answer
    -- What was read early stands in front of all the bytes as well, and is no longer than the cut.
    have same : encoded ++ [] = start ++ ((encoded.take kept).drop used ++ encoded.drop kept) := by
      rw [← List.append_assoc, ← parts, List.take_append_drop, List.append_nil]
    have whole := congrArg List.length (known.unique spelled form same).2.1
    have inside := reader.within answer
    rw [List.length_take] at inside
    omega

/-- Bytes that are read to their end are in the form. -/
theorem whole {reader : Reader ε α} {form : α → Bytes → Prop} {bytes : Bytes} {value : α}
    (known : reader.Recognizes form) (read : reader.run bytes = .ok (value, bytes.length)) :
    form value bytes := by
  have spelled := known.sound read
  rwa [List.take_length] at spelled

theorem congr {reader : Reader ε α} {form other : α → Bytes → Prop}
    (known : reader.Recognizes form) (same : ∀ value encoded, form value encoded ↔ other value encoded) :
    reader.Recognizes other where
  sound found := (same _ _).mp (known.sound found)
  complete spelled := known.complete ((same _ _).mpr spelled)

protected theorem pure (value : α) :
    (Pure.pure value : Reader ε α).Recognizes fun result encoded => result = value ∧ encoded = [] where
  sound found := by cases found; exact ⟨rfl, rfl⟩
  complete := by rintro result encoded ⟨rfl, rfl⟩; exact Reads.pure _

protected theorem fail (fault : ε) : (Reader.fail fault : Reader ε α).Recognizes fun _ _ => False where
  sound found := by cases found
  complete impossible := impossible.elim

theorem bind {first : Reader ε α} {next : α → Reader ε β} {form : α → Bytes → Prop}
    {following : α → β → Bytes → Prop} (start : first.Recognizes form)
    (continued : ∀ value, (next value).Recognizes (following value)) :
    (first >>= next).Recognizes fun result encoded =>
      ∃ value head tail, encoded = head ++ tail ∧ form value head ∧ following value result tail where
  sound {bytes result total} found := by
    cases opening : first.run bytes with
    | error fault => rw [run_bind_error opening] at found; cases found
    | ok pair =>
      obtain ⟨value, used⟩ := pair
      rw [run_bind_ok opening] at found
      cases closing : (next value).run (bytes.drop used) with
      | error fault => rw [closing] at found; cases found
      | ok last =>
        obtain ⟨answer, more⟩ := last
        rw [closing] at found
        cases found
        refine ⟨value, bytes.take used, (bytes.drop used).take more, List.take_add, ?_, ?_⟩
        · exact start.sound opening
        · exact (continued value).sound closing
  complete := by
    intro result encoded given
    obtain ⟨value, head, tail, rfl, headForm, tailForm⟩ := given
    exact (start.complete headForm).bind ((continued value).complete tailForm)

theorem map {reader : Reader ε α} {form : α → Bytes → Prop} (known : reader.Recognizes form)
    (convert : α → β) :
    (convert <$> reader).Recognizes fun result encoded =>
      ∃ value, form value encoded ∧ convert value = result where
  sound {bytes result used} found := by
    rw [← bind_pure_comp] at found
    cases answer : reader.run bytes with
    | error fault => rw [run_bind_error answer] at found; cases found
    | ok pair =>
      rw [run_bind_ok answer] at found
      cases found
      exact ⟨pair.1, known.sound answer, rfl⟩
  complete := by
    intro result encoded given
    obtain ⟨value, spelled, rfl⟩ := given
    exact (known.complete spelled).map convert

theorem andThen {reader : Reader ε α} {form : α → Bytes → Prop} (known : reader.Recognizes form)
    (check : α → Except ε β) :
    (reader.andThen check).Recognizes fun result encoded =>
      ∃ value, form value encoded ∧ check value = .ok result where
  sound {bytes result used} found := by
    cases answer : reader.run bytes with
    | error fault => rw [Reader.andThen, run_bind_error answer] at found; cases found
    | ok pair =>
      rw [Reader.andThen, run_bind_ok answer] at found
      cases decision : check pair.1 with
      | error fault => rw [decision] at found; cases found
      | ok accepted =>
        rw [decision] at found
        cases found
        exact ⟨pair.1, known.sound answer, decision⟩
  complete := by
    intro result encoded given
    obtain ⟨value, spelled, passed⟩ := given
    exact (known.complete spelled).andThen passed

theorem mapSome {reader : Reader ε α} {form : α → Bytes → Prop} (known : reader.Recognizes form)
    (refused : ε) (convert : α → Option β) :
    (reader.mapSome refused convert).Recognizes fun result encoded =>
      ∃ value, form value encoded ∧ convert value = some result := by
  refine (known.andThen _).congr fun result encoded => ?_
  refine exists_congr fun value => and_congr_right fun _ => ?_
  cases convert value <;> simp

theorem mapError {reader : Reader ε α} {form : α → Bytes → Prop} (known : reader.Recognizes form)
    (relabel : ε → δ) : (reader.mapError relabel).Recognizes form where
  sound {bytes value used} found := by
    rw [run_mapError] at found
    cases answer : reader.run bytes with
    | error fault => rw [answer] at found; cases found
    | ok pair => rw [answer] at found; cases found; exact known.sound answer
  complete spelled := (known.complete spelled).mapError relabel

protected theorem take (short : ε) (count : Nat) :
    (Reader.take short count).Recognizes fun chunk encoded =>
      encoded.length = count ∧ chunk = encoded where
  sound {bytes chunk used} found := by
    rw [run_take] at found
    split at found
    · rename_i enough
      cases found
      exact ⟨by rw [List.length_take]; omega, rfl⟩
    · cases found
  complete := by
    intro chunk encoded given
    obtain ⟨rfl, rfl⟩ := given
    exact Reads.take short chunk

end Recognizes
end Mqtt.Reader
