import Mqtt.Topic

/-!
Which bytes are a topic name, and what is said of all others. Bytes are judged as the text that they
stand for, and a text by the first rule that it breaks. How a topic name is cut into levels is not
covered.
-/
namespace Mqtt.Topic

/-- A character that a topic name may have. -/
def Plain (char : Char) : Prop := char ≠ '+' ∧ char ≠ '#' ∧ char ≠ '\x00'

/-- What is wrong with a text. Its length is counted in bytes and comes before its characters, of which
the first that is not plain decides. -/
inductive Refuses : String → TopicError → Prop
  | empty : Refuses "" .empty
  | tooLong {text : String} (long : maximumFieldLength < text.utf8ByteSize) : Refuses text .tooLong
  | wildcard {text : String} {front back : List Char} {char : Char}
      (short : text.utf8ByteSize ≤ maximumFieldLength) (chars : text.toList = front ++ char :: back)
      (plain : ∀ char ∈ front, Plain char) (wild : char = '+' ∨ char = '#') :
      Refuses text .wildcard
  | nullCharacter {text : String} {front back : List Char}
      (short : text.utf8ByteSize ≤ maximumFieldLength) (chars : text.toList = front ++ '\x00' :: back)
      (plain : ∀ char ∈ front, Plain char) : Refuses text .nullCharacter

theorem charError?_eq_some_iff {char : Char} {error : TopicError} :
    charError? char = some error ↔
      (error = .wildcard ∧ (char = '+' ∨ char = '#')) ∨ (error = .nullCharacter ∧ char = '\x00') := by
  unfold charError?
  split
  · rename_i wild
    have other : char ≠ '\x00' := by rintro rfl; simp at wild
    simp [wild, other, eq_comm]
  · rename_i tame
    split
    · rename_i null
      simp [null, eq_comm]
    · rename_i plain
      simp [tame, plain]

private theorem ne_empty_of_chars {text : String} {front back : List Char} {char : Char}
    (chars : text.toList = front ++ char :: back) : text ≠ "" := by
  rintro rfl
  simp at chars

theorem error?_eq_some_iff {text : String} {error : TopicError} :
    error? text = some error ↔ Refuses text error := by
  constructor
  · intro found
    unfold error? at found
    split at found
    · rename_i empty
      cases found
      exact empty ▸ .empty
    · split at found
      · rename_i long
        cases found
        exact .tooLong long
      · rename_i short
        have short := Nat.le_of_not_lt short
        obtain ⟨front, char, back, chars, bad, good⟩ := List.findSome?_eq_some_iff.mp found
        have plain : ∀ char ∈ front, Plain char := fun char member =>
          charError?_eq_none_iff.mp (good char member)
        rcases charError?_eq_some_iff.mp bad with ⟨rfl, wild⟩ | ⟨rfl, rfl⟩
        · exact .wildcard short chars plain wild
        · exact .nullCharacter short chars plain
  · intro refuses
    cases refuses with
    | empty => rfl
    | tooLong long =>
      have nonempty : text ≠ "" := by
        rintro rfl
        simp at long
      rw [error?, if_neg nonempty, if_pos long]
    | @wildcard _ front back char short chars plain wild =>
      rw [error?, if_neg (ne_empty_of_chars chars), if_neg (Nat.not_lt.mpr short)]
      exact List.findSome?_eq_some_iff.mpr ⟨front, char, back, chars,
        charError?_eq_some_iff.mpr (.inl ⟨rfl, wild⟩), fun char member =>
          charError?_eq_none_iff.mpr (plain char member)⟩
    | @nullCharacter _ front back short chars plain =>
      rw [error?, if_neg (ne_empty_of_chars chars), if_neg (Nat.not_lt.mpr short)]
      exact List.findSome?_eq_some_iff.mpr ⟨front, '\x00', back, chars,
        charError?_eq_some_iff.mpr (.inr ⟨rfl, rfl⟩), fun char member =>
          charError?_eq_none_iff.mpr (plain char member)⟩

/-- A text is a topic name if it has between 1 and 65535 bytes and its characters are plain. -/
theorem isTopicName_iff {text : String} :
    IsTopicName text ↔
      1 ≤ text.utf8ByteSize ∧ text.utf8ByteSize ≤ maximumFieldLength ∧
        ∀ char ∈ text.toList, Plain char := by
  have nonempty : text ≠ "" ↔ 1 ≤ text.utf8ByteSize := by
    rw [Nat.one_le_iff_ne_zero, ne_eq, ne_eq, String.utf8ByteSize_eq_zero_iff]
  constructor
  · rintro ⟨content, short, plain⟩
    exact ⟨nonempty.mp content, short, plain⟩
  · rintro ⟨content, short, plain⟩
    exact ⟨nonempty.mpr content, short, plain⟩

theorem ofBytes_encode (text : String) : ofBytes (Utf8.encode text) = ofText text := by
  rw [ofBytes, Utf8.decode_encode]

theorem ofBytes_of_garbled {bytes : Bytes} (garbled : ¬ Utf8.Valid bytes) :
    ofBytes bytes = .error .invalidUtf8 := by
  unfold ofBytes
  split
  · rfl
  · rename_i text decoded
    exact absurd ⟨text, Utf8.decode_eq_ok_iff.mp decoded⟩ garbled

/-- Bytes are a topic name when they are text of one to 65535 bytes with plain characters only. Of all
others it is said first that they are no text, and then the first that is wrong with the text. Text is
taken as its bytes are. -/
theorem ofBytes_outcomes (bytes : Bytes) :
    (∀ text, (∃ topic, ofBytes bytes = .ok topic ∧ topic.text = text) ↔
      bytes = Utf8.encode text ∧ 1 ≤ bytes.length ∧ bytes.length ≤ maximumFieldLength ∧
        ∀ char ∈ text.toList, Plain char) ∧
    (∀ error, ofBytes bytes = .error error ↔
      (error = .invalidUtf8 ∧ ¬ Utf8.Valid bytes) ∨
        ∃ text, bytes = Utf8.encode text ∧ Refuses text error) ∧
    (∀ text, bytes = Utf8.encode text → ofText text = ofBytes bytes) := by
  refine ⟨fun text => ?_, fun error => ?_, ?_⟩
  · constructor
    · rintro ⟨topic, found, rfl⟩
      have same := ofBytes_eq_ok_iff.mp found
      rw [same, Utf8.length_encode]
      exact ⟨rfl, isTopicName_iff.mp topic.isName⟩
    · rintro ⟨rfl, name⟩
      rw [Utf8.length_encode] at name
      exact ⟨⟨text, isTopicName_iff.mpr name⟩, ofBytes_eq_ok_iff.mpr rfl, rfl⟩
  · constructor
    · intro found
      by_cases valid : Utf8.Valid bytes
      · obtain ⟨text, rfl⟩ := valid
        rw [ofBytes_encode, ofText_eq_error_iff, error?_eq_some_iff] at found
        exact .inr ⟨text, rfl, found⟩
      · rw [ofBytes_of_garbled valid] at found
        cases found
        exact .inl ⟨rfl, valid⟩
    · rintro (⟨rfl, garbled⟩ | ⟨text, rfl, refuses⟩)
      · exact ofBytes_of_garbled garbled
      · rw [ofBytes_encode, ofText_eq_error_iff, error?_eq_some_iff]
        exact refuses
  · rintro text rfl
    exact (ofBytes_encode text).symm

end Mqtt.Topic
