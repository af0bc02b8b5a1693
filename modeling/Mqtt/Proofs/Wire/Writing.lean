import Mqtt.Proofs.PropertyTable
import Mqtt.Proofs.Wire.Field
import Mqtt.Size

/-!
What encodings write. An encoding writes a form when it comes to its end, with bytes of that form
and as many of them as it is accounted with; one that stops at an error has fewer.
-/
namespace Mqtt

/-- Text that has a form as a field. -/
structure SendableText (value : String) : Prop where
  plain : '\x00' ∉ value.toList
  short : value.utf8ByteSize ≤ maximumFieldLength

/-- Text that was read can be written. -/
theorem TextForm.sendable {text : String} {encoded : Bytes} (form : TextForm text encoded) :
    SendableText text where
  plain := form.plain
  short := by
    rw [← Utf8.length_encode]
    cases form.bytes
    assumption

namespace Encoding

structure Writes (encoding : Encoding) (form : Bytes → Prop) (size : Nat) : Prop where
  complete : encoding.error = none
  spelled : form encoding.bytes
  length : encoding.bytes.length = size

namespace Writes

variable {first second encoding : Encoding} {form other : Bytes → Prop} {size more : Nat}

theorem imp (writes : encoding.Writes form size) (weaker : ∀ bytes, form bytes → other bytes) :
    encoding.Writes other size :=
  ⟨writes.complete, weaker _ writes.spelled, writes.length⟩

theorem withLength (writes : encoding.Writes form size) :
    encoding.Writes (fun bytes => form bytes ∧ bytes.length = size) size :=
  ⟨writes.complete, ⟨writes.spelled, writes.length⟩, writes.length⟩

protected theorem append (head : first.Writes form size) (tail : second.Writes other more) :
    (first ++ second).Writes
      (fun bytes => ∃ front back, bytes = front ++ back ∧ form front ∧ other back)
      (size + more) where
  complete := by simp [head.complete, tail.complete]
  spelled := ⟨_, _, bytes_append head.complete second, head.spelled, tail.spelled⟩
  length := by rw [bytes_append head.complete, List.length_append, head.length, tail.length]

theorem concat {α : Type} {encode : α → Encoding} {form : α → Bytes → Prop} {size : α → Nat}
    {items : List α} (each : ∀ item ∈ items, (encode item).Writes (form item) (size item)) :
    (Encoding.concat (items.map encode)).Writes (Concatenation form items)
      (totalSize size items) := by
  induction items with
  | nil => exact ⟨rfl, .nil, rfl⟩
  | cons item rest ih =>
    have head := each item List.mem_cons_self
    have tail := ih fun later member => each later (List.mem_cons_of_mem item member)
    apply (head.append tail).imp
    intro bytes found
    obtain ⟨front, back, rfl, frontForm, backForm⟩ := found
    exact .cons frontForm backForm

end Writes

/-- If the encoding comes to its end, it has as many bytes as it is accounted with. -/
def Accounts (encoding : Encoding) (size : Nat) : Prop :=
  encoding.error = none → encoding.bytes.length = size

/-- The errors of a packet that is written already when they are found. -/
inductive Interrupts : WireError → Prop
  | packetIdRequired : Interrupts .packetIdRequired
  | invalidLength : Interrupts .invalidLength

/-- An encoding that is accounted with a size comes to its end with that many bytes, or it stops at an
error before it has as many. -/
structure Ends (encoding : Encoding) (size : Nat) : Prop where
  accounts : encoding.Accounts size
  stops : ∀ error, encoding.error = some error →
    Interrupts error ∧ encoding.bytes.length < size

theorem Writes.ends {encoding : Encoding} {form : Bytes → Prop} {size : Nat}
    (writes : encoding.Writes form size) : encoding.Ends size where
  accounts _ := writes.length
  stops _ stopped := by cases writes.complete.symm.trans stopped

theorem Ends.writes {encoding : Encoding} {size : Nat} (ends : encoding.Ends size)
    (complete : encoding.error = none) : encoding.Writes (fun _ => True) size :=
  ⟨complete, trivial, ends.accounts complete⟩

theorem Ends.ofBytes (bytes : Bytes) : (ofBytes bytes).Ends bytes.length where
  accounts _ := rfl
  stops := nofun

theorem Ends.fail {error : WireError} {size : Nat} (interrupts : Interrupts error)
    (positive : 0 < size) : (fail error).Ends size where
  accounts := nofun
  stops := by
    rintro _ ⟨⟩
    exact ⟨interrupts, positive⟩

protected theorem Ends.append {first second : Encoding} {size more : Nat}
    (head : first.Ends size) (tail : second.Ends more) : (first ++ second).Ends (size + more) := by
  cases ended : first.error with
  | some fault =>
    rw [append_of_error ended]
    refine ⟨fun complete => ?_, fun error stopped => ?_⟩
    · cases ended.symm.trans complete
    · obtain ⟨interrupts, short⟩ := head.stops error stopped
      exact ⟨interrupts, Nat.lt_add_right more short⟩
  | none =>
    have rest : (first ++ second).error = second.error := by simp [ended]
    have length : (first ++ second).bytes.length = size + second.bytes.length := by
      rw [bytes_append ended, List.length_append, head.accounts ended]
    refine ⟨fun complete => ?_, fun error stopped => ?_⟩
    · rw [length, tail.accounts (rest.symm.trans complete)]
    · obtain ⟨interrupts, short⟩ := tail.stops error (rest.symm.trans stopped)
      exact ⟨interrupts, length ▸ Nat.add_lt_add_left short size⟩

theorem Ends.concat {α : Type} {encode : α → Encoding} {size : α → Nat} (items : List α)
    (each : ∀ item, (encode item).Ends (size item)) :
    (Encoding.concat (items.map encode)).Ends (totalSize size items) := by
  induction items with
  | nil => exact .ofBytes []
  | cons item rest ih => exact (each item).append ih

theorem binary_ends (data : Bytes) : (binary data).Ends (binarySize data) := by
  unfold binary
  split
  · have length := Ends.ofBytes (BigEndian.encode 2 data.length ++ data)
    rwa [List.length_append, BigEndian.length_encode] at length
  · exact .fail .invalidLength (Nat.add_pos_left (by decide) _)

theorem text_ends (value : String) : (text value).Ends (textSize value) :=
  binary_ends (Utf8.encode value)

theorem userProperty_ends (property : UserProperty) :
    (userProperty property).Ends property.size :=
  (text_ends property.name).append (text_ends property.value)

theorem uint8_writes (value : UInt8) : (uint8 value).Writes (· = [value]) 1 :=
  ⟨rfl, rfl, rfl⟩

theorem uint16_writes (value : UInt16) :
    (uint16 value).Writes (· = BigEndian.encode 2 value.toNat) 2 :=
  ⟨rfl, rfl, BigEndian.length_encode 2 value.toNat⟩

theorem uint32_writes (value : UInt32) :
    (uint32 value).Writes (· = BigEndian.encode 4 value.toNat) 4 :=
  ⟨rfl, rfl, BigEndian.length_encode 4 value.toNat⟩

theorem varInt_writes {value : Nat} (fits : value ≤ VarInt.maximum) :
    (varInt value).Writes (VarInt.Form value) (VarInt.size value) :=
  ⟨rfl, VarInt.form_encode fits, VarInt.length_encode fits⟩

theorem binary_writes {data : Bytes} (short : data.length ≤ maximumFieldLength) :
    (binary data).Writes (BinaryForm data) (binarySize data) where
  complete := by rw [error_binary, if_pos short]
  spelled := by rw [binary, if_pos short]; exact .bytes short
  length := length_binary short

theorem text_writes {value : String} (sendable : SendableText value) :
    (text value).Writes (TextForm value) (textSize value) :=
  (binary_writes (by simpa using sendable.short)).imp fun _ form => ⟨sendable.plain, form⟩

theorem topic_writes (value : Topic) : (topic value).Writes value.Form value.size :=
  binary_writes (by simpa using value.isName.short)

theorem userProperty_writes {property : UserProperty} (name : SendableText property.name)
    (value : SendableText property.value) :
    (userProperty property).Writes property.Form property.size := by
  apply ((text_writes name).append (text_writes value)).imp
  intro bytes found
  obtain ⟨front, back, rfl, frontForm, backForm⟩ := found
  exact .pair frontForm backForm

end Encoding

namespace PropertySchema

variable {ε α : Type} {valueForm : α → Bytes → Prop}

private theorem form_code (id : PropertyId) : VarInt.Form id.code.toNat [id.code] := by
  have small : id.code.toNat < 128 := UInt8.lt_iff_toNat_lt.mp id.code_lt
  have form := VarInt.form_encode (show id.code.toNat ≤ VarInt.maximum by
    unfold VarInt.maximum
    omega)
  rwa [VarInt.encode_of_lt small, UInt8.ofNat_toNat] at form

/-- A value behind its identifier is an entry of a table. -/
theorem entry_writes (schema : PropertySchema ε α) {property : α} {value : Encoding} {size : Nat}
    (written : value.Writes (valueForm property) size) :
    (.uint8 (schema.id property).code ++ value : Encoding).Writes
      (schema.EntryForm valueForm property) (1 + size) := by
  apply ((Encoding.uint8_writes (schema.id property).code).append written).imp
  intro bytes found
  obtain ⟨front, back, rfl, rfl, valued⟩ := found
  exact .entry (form_code (schema.id property)) valued

/-- Entries behind their total size are a table. -/
theorem table_writes {schema : PropertySchema ε α} {encode : α → Encoding} {size : α → Nat}
    {properties : List α} (fits : totalSize size properties ≤ VarInt.maximum)
    (unrepeated : schema.Unrepeated properties)
    (each : ∀ property ∈ properties,
      (encode property).Writes (schema.EntryForm valueForm property) (size property)) :
    (.varInt (totalSize size properties) ++ .concat (properties.map encode) : Encoding).Writes
      (schema.TableForm valueForm properties)
      (VarInt.size (totalSize size properties) + totalSize size properties) := by
  have listed := Encoding.Writes.concat each
  apply ((Encoding.varInt_writes fits).append listed.withLength).imp
  intro bytes found
  obtain ⟨front, back, rfl, declared, entries, length⟩ := found
  rw [← length] at declared
  exact .table declared entries unrepeated

end PropertySchema
end Mqtt
