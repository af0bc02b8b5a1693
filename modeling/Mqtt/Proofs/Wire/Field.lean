import Mqtt.Proofs.Wire.Recognition
import Mqtt.Topic

/-!
The forms of the field types, and that their readers recognize them. Numbers of a fixed width have
one form each, and so has every other field: only variable byte integers have more.
-/
namespace Mqtt.BigEndian

theorem decode_injective {first second : Bytes} (width : first.length = second.length)
    (same : decode first = decode second) : first = second := by
  induction first generalizing second with
  | nil => exact (List.eq_nil_of_length_eq_zero width.symm).symm
  | cons byte rest ih =>
    cases second with
    | nil => cases width
    | cons other following =>
      have equal : rest.length = following.length := Nat.succ.inj width
      have low := decode_lt rest
      have otherLow := decode_lt following
      rw [decode_cons, decode_cons, ← equal] at same
      rw [← equal] at otherLow
      have positive : 0 < span rest.length := Nat.lt_of_le_of_lt (Nat.zero_le _) low
      have bytes : byte.toNat = other.toNat := by
        have quotients := congrArg (· / span rest.length) same
        simpa [Nat.mul_comm _ (span rest.length), Nat.mul_add_div positive,
          Nat.div_eq_of_lt low, Nat.div_eq_of_lt otherLow] using quotients
      rw [bytes] at same
      rw [UInt8.toNat_inj.mp bytes, ih equal (Nat.add_left_cancel same)]

/-- Of the bytes of one width, a number that fits has exactly those that are written. -/
theorem eq_encode_iff {bytes : Bytes} {width number : Nat} (fits : number < span width) :
    bytes = encode width number ↔ bytes.length = width ∧ decode bytes = number := by
  constructor
  · rintro rfl
    exact ⟨length_encode width number, by rw [decode_encode, Nat.mod_eq_of_lt fits]⟩
  · intro given
    obtain ⟨rfl, rfl⟩ := given
    apply decode_injective (length_encode ..).symm
    rw [decode_encode, Nat.mod_eq_of_lt fits]

end Mqtt.BigEndian

namespace Mqtt

/-- Binary data behind its length in two bytes. -/
inductive BinaryForm : Bytes → Bytes → Prop
  | bytes {data : Bytes} (short : data.length ≤ maximumFieldLength) :
      BinaryForm data (BigEndian.encode 2 data.length ++ data)

/-- Text is UTF-8 without a null character. -/
structure TextForm (text : String) (encoded : Bytes) : Prop where
  plain : '\x00' ∉ text.toList
  bytes : BinaryForm (Utf8.encode text) encoded

inductive UserProperty.Form : UserProperty → Bytes → Prop
  | pair {name value : String} {head tail : Bytes} (nameForm : TextForm name head)
      (valueForm : TextForm value tail) : Form ⟨name, value⟩ (head ++ tail)

/-- The topic name as binary data; no check of the name is left to be made. -/
def Topic.Form (topic : Topic) (encoded : Bytes) : Prop := BinaryForm (Utf8.encode topic.text) encoded

theorem BinaryForm.length {data encoded : Bytes} (form : BinaryForm data encoded) :
    encoded.length = binarySize data := by
  cases form
  simp [binarySize]

theorem TextForm.length {text : String} {encoded : Bytes} (form : TextForm text encoded) :
    encoded.length = textSize text := by
  rw [form.bytes.length, binarySize, Utf8.length_encode, textSize]

theorem UserProperty.Form.length {property : UserProperty} {encoded : Bytes}
    (form : property.Form encoded) : encoded.length = property.size := by
  obtain ⟨name, value⟩ := form
  rw [List.length_append, name.length, value.length]
  rfl

namespace Reader

theorem uint8_recognizes : uint8.Recognizes fun value encoded => encoded = [value] where
  sound {bytes value used} found := by
    cases bytes with
    | nil => cases found
    | cons byte rest => cases found; rfl
  complete := by
    rintro value encoded rfl rest
    rfl

/-- A type of numbers that are the ones of a fixed width has its readers recognize them. -/
private theorem number_recognizes {α : Type} {width : Nat} {ofNat : Nat → α} {toNat : α → Nat}
    (fits : ∀ value, toNat value < BigEndian.span width)
    (same : ∀ value, ofNat (toNat value) = value)
    (back : ∀ number, number < BigEndian.span width → toNat (ofNat number) = number) :
    ((fun bytes => ofNat (BigEndian.decode bytes)) <$>
      take WireError.invalidLength width).Recognizes
        fun value encoded => encoded = BigEndian.encode width (toNat value) := by
  refine ((Recognizes.take WireError.invalidLength width).map _).congr fun value encoded => ?_
  rw [BigEndian.eq_encode_iff (fits value)]
  constructor
  · intro given
    obtain ⟨chunk, ⟨length, rfl⟩, rfl⟩ := given
    have bound := BigEndian.decode_lt chunk
    rw [length] at bound
    exact ⟨length, (back _ bound).symm⟩
  · intro given
    obtain ⟨length, number⟩ := given
    exact ⟨encoded, ⟨length, rfl⟩, by rw [number, same]⟩

theorem uint16_recognizes :
    uint16.Recognizes fun value encoded => encoded = BigEndian.encode 2 value.toNat :=
  number_recognizes UInt16.toNat_lt (fun _ => UInt16.ofNat_toNat)
    fun _ bound => UInt16.toNat_ofNat_of_lt' bound

theorem uint32_recognizes :
    uint32.Recognizes fun value encoded => encoded = BigEndian.encode 4 value.toNat :=
  number_recognizes UInt32.toNat_lt (fun _ => UInt32.ofNat_toNat)
    fun _ bound => UInt32.toNat_ofNat_of_lt' bound

theorem binary_recognizes : binary.Recognizes BinaryForm := by
  refine (uint16_recognizes.bind fun length => Recognizes.take .invalidLength length.toNat).congr
    fun data encoded => ?_
  constructor
  · intro given
    obtain ⟨length, head, tail, rfl, rfl, width, rfl⟩ := given
    have short : data.length ≤ maximumFieldLength := by
      rw [width]
      exact Nat.le_of_lt_succ length.toNat_lt
    rw [← width]
    exact .bytes short
  · intro given
    obtain ⟨short⟩ := given
    have fits : (UInt16.ofNat data.length).toNat = data.length :=
      UInt16.toNat_ofNat_of_lt' (Nat.lt_succ_of_le short)
    exact ⟨UInt16.ofNat data.length, _, data, rfl, by rw [fits], fits.symm, rfl⟩

theorem plainText_eq_ok_iff {data : Bytes} {value : String} :
    plainText data = .ok value ↔ data = Utf8.encode value ∧ '\x00' ∉ value.toList := by
  constructor
  · intro passed
    unfold plainText at passed
    split at passed
    · cases passed
    · rename_i decoded
      split at passed
      · cases passed
      · rename_i plain
        cases passed
        exact ⟨Utf8.decode_eq_ok_iff.mp decoded, plain⟩
  · rintro ⟨rfl, plain⟩
    simp [plainText, plain]

theorem text_recognizes : text.Recognizes TextForm := by
  refine (binary_recognizes.andThen plainText).congr fun value encoded => ?_
  constructor
  · intro given
    obtain ⟨data, form, passed⟩ := given
    obtain ⟨rfl, plain⟩ := plainText_eq_ok_iff.mp passed
    exact ⟨plain, form⟩
  · intro given
    obtain ⟨plain, form⟩ := given
    exact ⟨Utf8.encode value, form, plainText_eq_ok_iff.mpr ⟨rfl, plain⟩⟩

theorem userProperty_recognizes : userProperty.Recognizes UserProperty.Form := by
  refine (text_recognizes.bind fun name => text_recognizes.bind fun value =>
    Recognizes.pure (UserProperty.mk name value)).congr fun property encoded => ?_
  constructor
  · intro given
    obtain ⟨name, head, _, rfl, nameForm, value, tail, _, rfl, valueForm, rfl, rfl⟩ := given
    rw [List.append_nil]
    exact .pair nameForm valueForm
  · intro given
    obtain ⟨nameForm, valueForm⟩ := given
    exact ⟨_, _, _, rfl, nameForm, _, _, [], (List.append_nil _).symm, valueForm, rfl, rfl⟩

/-- Binary data that is a topic name, whatever the reader of the data reports for other data. -/
theorem Recognizes.topic {ε : Type} {reader : Reader ε Bytes} (known : reader.Recognizes BinaryForm)
    (refused : ε) :
    (reader.mapSome refused fun bytes => (Topic.ofBytes bytes).toOption).Recognizes Topic.Form := by
  refine (known.mapSome refused _).congr fun topic encoded => ?_
  constructor
  · intro given
    obtain ⟨data, form, converted⟩ := given
    cases answer : Topic.ofBytes data with
    | error fault => rw [answer] at converted; cases converted
    | ok accepted =>
      rw [answer] at converted
      cases converted
      rw [Topic.ofBytes_eq_ok_iff.mp answer] at form
      exact form
  · intro form
    refine ⟨Utf8.encode topic.text, form, ?_⟩
    rw [Topic.ofBytes_eq_ok_iff.mpr rfl]
    rfl

end Reader
end Mqtt
