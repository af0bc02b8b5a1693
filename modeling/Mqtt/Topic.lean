import Mqtt.Wire.Field

/-!
Topic names. A topic is text with the proof that it is a topic name, so that no later step checks
it again. `TopicError` says what is wrong with other text; the first fault in reading order wins.
-/
namespace Mqtt

inductive TopicError
  | empty
  | tooLong
  | invalidUtf8
  | wildcard
  | nullCharacter
deriving DecidableEq, Repr

def TopicError.message : TopicError → String
  | empty => "topic name must not be empty"
  | tooLong => "topic name is too long"
  | invalidUtf8 => "topic name is not valid UTF-8"
  | wildcard => "topic name must not contain wildcard characters"
  | nullCharacter => "topic name must not contain the null character"

/-- The length of a topic name is counted in bytes, not in characters. -/
structure IsTopicName (text : String) : Prop where
  nonempty : text ≠ ""
  short : text.utf8ByteSize ≤ maximumFieldLength
  plain : ∀ char ∈ text.toList, char ≠ '+' ∧ char ≠ '#' ∧ char ≠ '\x00'

structure Topic where
  text : String
  isName : IsTopicName text
deriving DecidableEq

namespace Topic

def charError? (char : Char) : Option TopicError :=
  if char = '+' ∨ char = '#' then some .wildcard
  else if char = '\x00' then some .nullCharacter
  else none

def error? (text : String) : Option TopicError :=
  if text = "" then some .empty
  else if maximumFieldLength < text.utf8ByteSize then some .tooLong
  else text.toList.findSome? charError?

theorem charError?_eq_none_iff {char : Char} :
    charError? char = none ↔ char ≠ '+' ∧ char ≠ '#' ∧ char ≠ '\x00' := by
  unfold charError?
  split
  · rename_i wild
    rcases wild with same | same <;> simp [same]
  · rename_i tame
    simp only [not_or] at tame
    split <;> simp_all

theorem error?_eq_none_iff {text : String} : error? text = none ↔ IsTopicName text := by
  constructor
  · intro clean
    unfold error? at clean
    split at clean
    · cases clean
    · rename_i nonempty
      split at clean
      · cases clean
      · rename_i short
        exact ⟨nonempty, Nat.le_of_not_lt short, fun char member =>
          charError?_eq_none_iff.mp (List.findSome?_eq_none_iff.mp clean char member)⟩
  · intro valid
    rw [error?, if_neg valid.nonempty, if_neg (Nat.not_lt.mpr valid.short)]
    exact List.findSome?_eq_none_iff.mpr fun char member =>
      charError?_eq_none_iff.mpr (valid.plain char member)

def ofText (text : String) : Except TopicError Topic :=
  match found : error? text with
  | none => .ok ⟨text, error?_eq_none_iff.mp found⟩
  | some error => .error error

def ofBytes (bytes : Bytes) : Except TopicError Topic :=
  match Utf8.decode bytes with
  | .error _ => .error .invalidUtf8
  | .ok text => ofText text

/-- The parts between slashes; there may be nothing between two of them. -/
def levels (topic : Topic) : List String := topic.text.splitOn "/"

theorem ofText_eq_ok_iff {text : String} {topic : Topic} :
    ofText text = .ok topic ↔ topic.text = text := by
  constructor
  · intro found
    unfold ofText at found
    split at found
    · cases found; rfl
    · cases found
  · rintro rfl
    have clean := error?_eq_none_iff.mpr topic.isName
    unfold ofText
    split
    · rfl
    · rename_i found
      rw [clean] at found
      cases found

theorem ofText_eq_error_iff {text : String} {error : TopicError} :
    ofText text = .error error ↔ error? text = some error := by
  unfold ofText
  split <;> simp_all

theorem ofBytes_eq_ok_iff {bytes : Bytes} {topic : Topic} :
    ofBytes bytes = .ok topic ↔ bytes = Utf8.encode topic.text := by
  constructor
  · intro found
    unfold ofBytes at found
    split at found
    · cases found
    · rename_i text decoded
      rw [ofText_eq_ok_iff.mp found]
      exact Utf8.decode_eq_ok_iff.mp decoded
  · rintro rfl
    simp only [ofBytes, Utf8.decode_encode]
    exact ofText_eq_ok_iff.mpr rfl

end Topic

def Encoding.topic (topic : Topic) : Encoding := text topic.text

def Topic.size (topic : Topic) : Nat := textSize topic.text

end Mqtt
