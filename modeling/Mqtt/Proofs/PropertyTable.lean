import Mathlib.Data.List.Pairwise
import Mqtt.Proofs.Wire.Faults
import Mqtt.Proofs.Wire.VarInt
import Mqtt.PropertySchema

/-!
What a property table holds. The loop over a table is a run of steps that use up the declared length
exactly; for a schema, such a run is a concatenation of well-formed properties of which only those
that may be repeated are repeated.
-/
namespace Mqtt.PropertyTable

variable {ε σ : Type}

/-- Steps from one state to another over the given number of bytes. A handler sees all bytes behind
the identifier, also those behind the table. -/
inductive Steps (handler : Handler ε σ) : σ → Bytes → Nat → σ → Prop
  | done {state : σ} {bytes : Bytes} : Steps handler state bytes 0 state
  | step {state next final : σ} {bytes : Bytes} {identifier width length used : Nat}
      (named : VarInt.reader.run bytes = .ok (identifier, width))
      (handled : (handler state (PropertyId.ofIdentifier? identifier)).run (bytes.drop width) =
        .ok (next, length))
      (rest : Steps handler next (bytes.drop (width + length)) used final) :
      Steps handler state bytes (width + length + used) final

section Loop

variable {faults : Faults ε} {handler : Handler ε σ} {declared used : Nat} {state final : σ}
  {bytes : Bytes}

theorem entries_of_error {fault : VarInt.Fault} (unfinished : ¬ declared ≤ used)
    (unnamed : VarInt.reader.run bytes = .error fault) :
    entries faults handler declared used state bytes = .error faults.malformedId := by
  rw [entries, if_neg unfinished]
  split
  · rfl
  · rename_i named
    cases unnamed.symm.trans named

theorem entries_of_ok {identifier width : Nat} (unfinished : ¬ declared ≤ used)
    (named : VarInt.reader.run bytes = .ok (identifier, width)) :
    entries faults handler declared used state bytes =
      ((handler state (PropertyId.ofIdentifier? identifier)).run (bytes.drop width)).bind
        fun pair => entries faults handler declared (used + width + pair.2) pair.1
          (bytes.drop (width + pair.2)) := by
  rw [entries, if_neg unfinished]
  split
  · rename_i unnamed
    cases named.symm.trans unnamed
  · rename_i same
    cases named.symm.trans same
    cases (handler state (PropertyId.ofIdentifier? identifier)).run (bytes.drop width) <;> rfl

/-- The loop succeeds when its steps end at the declared length, neither before it nor behind it. -/
theorem entries_eq_ok_iff :
    entries faults handler declared used state bytes = .ok final ↔
      used ≤ declared ∧ Steps handler state bytes (declared - used) final := by
  constructor
  · intro found
    induction used, state, bytes using entries.induct handler declared with
    | case1 state bytes reached =>
      rw [entries, if_pos reached, if_pos rfl] at found
      cases found
      rw [Nat.sub_self]
      exact ⟨reached, .done⟩
    | case2 used state bytes reached overrun =>
      rw [entries, if_pos reached, if_neg overrun] at found
      cases found
    | case3 used state bytes unfinished fault unnamed =>
      rw [entries_of_error unfinished unnamed] at found
      cases found
    | case4 used state bytes unfinished identifier width named fault refused =>
      rw [entries_of_ok unfinished named, refused] at found
      cases found
    | case5 used state bytes unfinished identifier width named next length handled ih =>
      rw [entries_of_ok unfinished named, handled] at found
      obtain ⟨inside, rest⟩ := ih found
      have size : declared - used = width + length + (declared - (used + width + length)) := by omega
      rw [size]
      exact ⟨by omega, .step named handled rest⟩
  · intro fits
    obtain ⟨inside, steps⟩ := fits
    generalize remaining : declared - used = size at steps
    induction steps generalizing used with
    | done =>
      have same : used = declared := by omega
      rw [entries, if_pos (Nat.le_of_eq same.symm), if_pos same]
    | step named handled rest ih =>
      have progress := VarInt.reader_progress named
      rw [entries_of_ok (by omega) named, handled]
      exact ih (by omega) (by omega)

private theorem possible_of_entries {possible : ε → Prop} {fault : ε}
    (handled : ∀ state found, (handler state found).FailsWithin possible)
    (malformedLength : possible faults.malformedLength) (malformedId : possible faults.malformedId)
    (failed : entries faults handler declared used state bytes = .error fault) : possible fault := by
  induction used, state, bytes using entries.induct handler declared with
  | case1 state bytes reached =>
    rw [entries, if_pos reached, if_pos rfl] at failed
    cases failed
  | case2 used state bytes reached overrun =>
    rw [entries, if_pos reached, if_neg overrun] at failed
    cases failed
    exact malformedLength
  | case3 used state bytes unfinished reason unnamed =>
    rw [entries_of_error unfinished unnamed] at failed
    cases failed
    exact malformedId
  | case4 used state bytes unfinished identifier width named reason refused =>
    rw [entries_of_ok unfinished named, refused] at failed
    cases failed
    exact handled _ _ _ _ refused
  | case5 used state bytes unfinished identifier width named next length accepted ih =>
    rw [entries_of_ok unfinished named, accepted] at failed
    exact ih failed

end Loop

/-- No property is looked at before all of the table is there. -/
theorem read_error_of_short {faults : Faults ε} {handler : Handler ε σ} {start : σ} {bytes : Bytes}
    {declared width : Nat} (header : VarInt.reader.run bytes = .ok (declared, width))
    (short : (bytes.drop width).length < declared) :
    (read faults handler start).run bytes = .error faults.tooShort := by
  simp only [read, header, if_pos short]

theorem read_failsWithin {faults : Faults ε} {handler : Handler ε σ} {possible : ε → Prop}
    (handled : ∀ state found, (handler state found).FailsWithin possible)
    (malformedLength : possible faults.malformedLength) (tooShort : possible faults.tooShort)
    (malformedId : possible faults.malformedId) (start : σ) :
    (read faults handler start).FailsWithin possible := by
  intro bytes fault failed
  simp only [read] at failed
  cases header : VarInt.reader.run bytes with
  | error reason =>
    rw [header] at failed
    cases failed
    exact malformedLength
  | ok pair =>
    obtain ⟨declared, width⟩ := pair
    simp only [header] at failed
    split at failed
    · cases failed
      exact tooShort
    · cases answer : entries faults handler declared 0 start (bytes.drop width) with
      | error reason =>
        rw [answer] at failed
        cases failed
        exact possible_of_entries handled malformedLength malformedId answer
      | ok final =>
        rw [answer] at failed
        cases failed

end Mqtt.PropertyTable

namespace Mqtt

/-- The bytes of a list of items, those of one item behind those of the other. -/
inductive Concatenation {α : Type} (form : α → Bytes → Prop) : List α → Bytes → Prop
  | nil : Concatenation form [] []
  | cons {item : α} {items : List α} {head tail : Bytes} (first : form item head)
      (rest : Concatenation form items tail) : Concatenation form (item :: items) (head ++ tail)

namespace Concatenation

variable {α : Type} {form : α → Bytes → Prop} {size : α → Nat} {items : List α}
  {encoded : Bytes}

theorem exists_form (listed : Concatenation form items encoded) :
    ∀ item ∈ items, ∃ bytes, form item bytes := by
  induction listed with
  | nil => nofun
  | cons first _ ih => exact List.forall_mem_cons.mpr ⟨⟨_, first⟩, ih⟩

theorem totalSize_le (listed : Concatenation form items encoded)
    (each : ∀ item bytes, form item bytes → size item ≤ bytes.length) :
    totalSize size items ≤ encoded.length := by
  induction listed with
  | nil => exact Nat.le_refl 0
  | cons first _ ih =>
    rw [totalSize_cons, List.length_append]
    exact Nat.add_le_add (each _ _ first) ih

end Concatenation

namespace PropertySchema

variable {ε α : Type}

/-- The values that a schema reads are those of a form, and each property of the form is read. -/
structure Describes (schema : PropertySchema ε α) (valueForm : α → Bytes → Prop) : Prop where
  value : ∀ {id reader}, schema.value? id = some reader →
    reader.Recognizes fun property encoded => schema.id property = id ∧ valueForm property encoded
  admitted : ∀ property, (schema.value? (schema.id property)).isSome

/-- An identifier in any of its forms, and the value behind it. -/
inductive EntryForm (schema : PropertySchema ε α) (valueForm : α → Bytes → Prop) : α → Bytes → Prop
  | entry {property : α} {head tail : Bytes}
      (named : VarInt.Form (schema.id property).code.toNat head) (valued : valueForm property tail) :
      EntryForm schema valueForm property (head ++ tail)

def Compatible (schema : PropertySchema ε α) (first second : α) : Prop :=
  schema.id first = schema.id second → (schema.id first).mayRepeat

/-- Only what may be repeated is repeated. -/
def Unrepeated (schema : PropertySchema ε α) (properties : List α) : Prop :=
  properties.Pairwise schema.Compatible

/-- A length in any of its forms, and exactly as many bytes of properties. -/
inductive TableForm (schema : PropertySchema ε α) (valueForm : α → Bytes → Prop) :
    List α → Bytes → Prop
  | table {properties : List α} {length entries : Bytes}
      (declared : VarInt.Form entries.length length)
      (listed : Concatenation (schema.EntryForm valueForm) properties entries)
      (unrepeated : schema.Unrepeated properties) :
      TableForm schema valueForm properties (length ++ entries)

variable {schema : PropertySchema ε α} {valueForm : α → Bytes → Prop}

/-- Reading what is behind the identifier of a constructor gives the values of that constructor. -/
theorem recognizes_constructor {β : Type} {reader : Reader ε β} {form : β → Bytes → Prop}
    {make : β → α} {id : PropertyId} (known : reader.Recognizes form)
    (covers : ∀ property, schema.id property = id ↔ ∃ value, make value = property)
    (same : ∀ value encoded, form value encoded ↔ valueForm (make value) encoded) :
    (make <$> reader).Recognizes fun property encoded =>
      schema.id property = id ∧ valueForm property encoded := by
  refine (known.map make).congr fun property encoded => ?_
  constructor
  · intro given
    obtain ⟨value, form, rfl⟩ := given
    exact ⟨(covers _).mpr ⟨value, rfl⟩, (same value encoded).mp form⟩
  · intro given
    obtain ⟨found, form⟩ := given
    obtain ⟨value, rfl⟩ := (covers property).mp found
    exact ⟨value, (same value encoded).mpr form, rfl⟩

theorem TableForm.unrepeated {properties : List α} {encoded : Bytes}
    (spelled : schema.TableForm valueForm properties encoded) : schema.Unrepeated properties := by
  cases spelled
  assumption

/-- A table has a length field at least. -/
theorem TableForm.length_pos {properties : List α} {encoded : Bytes}
    (spelled : schema.TableForm valueForm properties encoded) : 0 < encoded.length := by
  obtain ⟨declared, -, -⟩ := spelled
  rw [List.length_append]
  exact Nat.add_pos_left declared.length_pos _

instance : Std.Symm schema.Compatible where
  symm _ _ compatible same := same ▸ compatible same.symm

theorem unrepeated_reverse {properties : List α} :
    schema.Unrepeated properties.reverse ↔ schema.Unrepeated properties := by
  rw [Unrepeated, List.pairwise_reverse]
  exact ⟨fun each => each.imp fun apart => symm apart, fun each => each.imp fun apart => symm apart⟩

theorem pairwise_option {β : Type} (schema : PropertySchema ε α) (make : β → α)
    (choice : Option β) : (choice.map make).toList.Pairwise schema.Compatible := by
  cases choice <;> simp

theorem pairwise_map {β : Type} {make : β → α}
    (repeats : ∀ value, (schema.id (make value)).mayRepeat) (values : List β) :
    (values.map make).Pairwise schema.Compatible :=
  List.pairwise_map.mpr (List.pairwise_of_forall fun value _ _ => repeats value)

theorem Unrepeated.eq_of_id {properties : List α} (unrepeated : schema.Unrepeated properties)
    {first second : α} (member : first ∈ properties) (other : second ∈ properties)
    (same : schema.id first = schema.id second) (single : (schema.id first).mayRepeat = false) :
    first = second := by
  by_contra different
  have repeated := List.Pairwise.forall unrepeated member other different same
  rw [single] at repeated
  cases repeated

theorem handler_of_unsupported {id : PropertyId} (unsupported : schema.value? id = none)
    (behind : List α) : schema.handler behind (some id) = .fail schema.unexpected := by
  simp only [handler, unsupported]

theorem handler_of_repeated {id : PropertyId} {value : Reader ε α} {behind : List α} {earlier : α}
    (supported : schema.value? id = some value) (member : earlier ∈ behind)
    (same : schema.id earlier = id) (single : id.mayRepeat = false) :
    schema.handler behind (some id) = .fail schema.repeated := by
  have repeated : behind.any (fun property => schema.id property == id) :=
    List.any_eq_true.mpr ⟨earlier, member, beq_iff_eq.mpr same⟩
  simp only [handler, supported, single, repeated, Bool.not_false, Bool.and_self, if_true]

/-- A property that repeats none in front of it is handled by the reader of its value. -/
theorem handler_of_fresh {id : PropertyId} {value : Reader ε α} {behind : List α}
    (supported : schema.value? id = some value)
    (fresh : ∀ earlier ∈ behind, schema.id earlier = id → id.mayRepeat) :
    schema.handler behind (some id) = (fun property => property :: behind) <$> value := by
  simp only [handler, supported]
  rw [if_neg]
  intro repeated
  simp only [Bool.and_eq_true, Bool.not_eq_true', List.any_eq_true, beq_iff_eq] at repeated
  obtain ⟨single, earlier, member, same⟩ := repeated
  rw [fresh earlier member same] at single
  cases single

/-- A handler adds a property of the form, unless it repeats one in front of it. -/
theorem handler_recognizes (described : schema.Describes valueForm) (behind : List α)
    (found : Option PropertyId) :
    (schema.handler behind found).Recognizes fun state encoded =>
      ∃ property, state = property :: behind ∧ found = some (schema.id property) ∧
        (∀ earlier ∈ behind, schema.Compatible property earlier) ∧ valueForm property encoded := by
  cases found with
  | none => exact (Reader.Recognizes.fail _).congr fun state encoded => by simp
  | some id =>
    cases supported : schema.value? id with
    | none =>
      rw [handler_of_unsupported supported]
      refine (Reader.Recognizes.fail _).congr fun state encoded => ⟨False.elim, ?_⟩
      intro given
      obtain ⟨property, -, same, -⟩ := given
      have admitted := described.admitted property
      rw [← Option.some.inj same, supported] at admitted
      cases admitted
    | some value =>
      by_cases fresh : ∀ earlier ∈ behind, schema.id earlier = id → id.mayRepeat
      · rw [handler_of_fresh supported fresh]
        refine ((described.value supported).map _).congr fun state encoded => ?_
        constructor
        · intro given
          obtain ⟨property, ⟨rfl, valued⟩, rfl⟩ := given
          exact ⟨property, rfl, rfl, fun earlier member same => fresh earlier member same.symm,
            valued⟩
        · intro given
          obtain ⟨property, rfl, same, compatible, valued⟩ := given
          exact ⟨property, ⟨(Option.some.inj same).symm, valued⟩, rfl⟩
      · simp only [not_forall, Bool.not_eq_true] at fresh
        obtain ⟨earlier, member, same, single⟩ := fresh
        rw [handler_of_repeated supported member same single]
        refine (Reader.Recognizes.fail _).congr fun state encoded => ⟨False.elim, ?_⟩
        intro given
        obtain ⟨property, -, identified, compatible, -⟩ := given
        cases identified
        have allowed := compatible earlier member same.symm
        rw [single] at allowed
        cases allowed

/-- A run over a table is the reading of a concatenation of properties. -/
theorem steps_iff (described : schema.Describes valueForm) {behind final : List α} {bytes : Bytes}
    {used : Nat} (unrepeated : schema.Unrepeated behind) :
    PropertyTable.Steps schema.handler behind bytes used final ↔
      ∃ properties encoded rest, bytes = encoded ++ rest ∧ encoded.length = used ∧
        Concatenation (schema.EntryForm valueForm) properties encoded ∧
        final = properties.reverse ++ behind ∧ schema.Unrepeated final := by
  constructor
  · intro steps
    induction steps with
    | @done behind bytes => exact ⟨[], [], bytes, rfl, rfl, .nil, rfl, unrepeated⟩
    | @step behind next final bytes identifier width length used named handled rest ih =>
      obtain ⟨head, headParts, headWidth, spelled⟩ := VarInt.reader_recognizes.split named
      obtain ⟨value, valueParts, valueWidth, property, rfl, identified, compatible, valued⟩ :=
        (handler_recognizes described behind _).split handled
      obtain ⟨properties, encoded, remaining, parts, size, listed, rfl, kept⟩ :=
        ih (List.pairwise_cons.mpr ⟨compatible, unrepeated⟩)
      have code := PropertyId.ofIdentifier?_eq_some_iff.mp identified
      rw [← code] at spelled
      refine ⟨property :: properties, head ++ value ++ encoded, remaining, ?_, ?_,
        .cons (.entry spelled valued) listed, by simp, by simpa using kept⟩
      · rw [List.append_assoc, ← parts, ← List.drop_drop, List.append_assoc, ← valueParts, ← headParts]
      · simp only [List.length_append]
        omega
  · intro given
    obtain ⟨properties, encoded, rest, rfl, rfl, listed, rfl, kept⟩ := given
    induction listed generalizing behind with
    | nil => exact .done
    | @cons property properties head tail first listed ih =>
      obtain ⟨named, valued⟩ := first
      rename_i name value
      have arranged : (property :: properties).reverse ++ behind =
          properties.reverse ++ property :: behind := by simp
      rw [arranged] at kept ⊢
      have together := (List.pairwise_append.mp kept).2.1
      have identified := VarInt.reader_recognizes.complete named (value ++ (tail ++ rest))
      have handled := (handler_recognizes described behind (some (schema.id property))).complete
        ⟨property, rfl, rfl, (List.pairwise_cons.mp together).1, valued⟩ (tail ++ rest)
      have size : (name ++ value ++ tail).length = name.length + value.length + tail.length := by
        simp [Nat.add_assoc]
      rw [size, List.append_assoc, List.append_assoc]
      apply PropertyTable.Steps.step identified
      · rw [PropertyId.ofIdentifier?_code, List.drop_left]
        exact handled
      · rw [← List.drop_drop, List.drop_left, List.drop_left]
        exact ih together kept

private theorem table_recognizes (described : schema.Describes valueForm) :
    (PropertyTable.read schema.faults schema.handler []).Recognizes fun final encoded =>
      schema.TableForm valueForm final.reverse encoded where
  sound {bytes final used} found := by
    simp only [PropertyTable.read] at found
    cases header : VarInt.reader.run bytes with
    | error fault => rw [header] at found; cases found
    | ok pair =>
      obtain ⟨declared, width⟩ := pair
      simp only [header] at found
      split at found
      · cases found
      · cases answer : PropertyTable.entries schema.faults schema.handler declared 0 []
            (bytes.drop width) with
        | error fault => rw [answer] at found; cases found
        | ok state =>
          rw [answer] at found
          cases found
          have steps := (PropertyTable.entries_eq_ok_iff.mp answer).2
          obtain ⟨properties, encoded, rest, parts, size, listed, rfl, unrepeated⟩ :=
            (steps_iff described List.Pairwise.nil).mp steps
          have spelled := VarInt.reader_recognizes.sound header
          rw [Nat.sub_zero] at size
          subst size
          rw [List.take_add, parts, List.take_left, List.append_nil, List.reverse_reverse]
          rw [List.append_nil, unrepeated_reverse] at unrepeated
          exact .table spelled listed unrepeated
  complete {final encoded} spelled rest := by
    generalize arranged : final.reverse = properties at spelled
    obtain ⟨declared, listed, unrepeated⟩ := spelled
    rename_i length entries
    have steps : PropertyTable.Steps schema.handler [] (entries ++ rest) entries.length final := by
      refine (steps_iff described List.Pairwise.nil).mpr
        ⟨properties, entries, rest, rfl, rfl, listed, ?_, ?_⟩
      · rw [List.append_nil, ← arranged, List.reverse_reverse]
      · rwa [← unrepeated_reverse, arranged]
    have answer : PropertyTable.entries schema.faults schema.handler entries.length 0 []
        (entries ++ rest) = .ok final :=
      PropertyTable.entries_eq_ok_iff.mpr ⟨Nat.zero_le entries.length, steps⟩
    have header := VarInt.reader_recognizes.complete declared (entries ++ rest)
    have enough : ¬ (entries ++ rest).length < entries.length := by simp
    simp only [PropertyTable.read, List.append_assoc, header, List.drop_left, if_neg enough, answer]
    rw [Except.map, List.length_append]

/-- A schema reads exactly the tables of its properties. -/
theorem read_recognizes (described : schema.Describes valueForm) :
    schema.read.Recognizes (schema.TableForm valueForm) := by
  refine ((table_recognizes described).map List.reverse).congr fun properties encoded => ?_
  constructor
  · intro given
    obtain ⟨final, spelled, rfl⟩ := given
    exact spelled
  · intro spelled
    exact ⟨properties.reverse, by rwa [List.reverse_reverse], List.reverse_reverse properties⟩

/-- Whatever goes wrong in a table or in a property is reported as one of the possible faults. -/
structure Reports (schema : PropertySchema ε α) (possible : ε → Prop) : Prop where
  malformedLength : possible schema.faults.malformedLength
  tooShort : possible schema.faults.tooShort
  malformedId : possible schema.faults.malformedId
  unexpected : possible schema.unexpected
  repeated : possible schema.repeated
  value : ∀ {id reader}, schema.value? id = some reader → reader.FailsWithin possible

private theorem handler_failsWithin {possible : ε → Prop} (reports : schema.Reports possible)
    (behind : List α) (found : Option PropertyId) :
    (schema.handler behind found).FailsWithin possible := by
  cases found with
  | none => exact .fail reports.unexpected
  | some id =>
    cases supported : schema.value? id with
    | none =>
      simp only [handler, supported]
      exact .fail reports.unexpected
    | some value =>
      simp only [handler, supported]
      split
      · exact .fail reports.repeated
      · exact (reports.value supported).map _

theorem read_failsWithin {possible : ε → Prop} (reports : schema.Reports possible) :
    schema.read.FailsWithin possible :=
  (PropertyTable.read_failsWithin (handler_failsWithin reports) reports.malformedLength
    reports.tooShort reports.malformedId []).map List.reverse

end PropertySchema
end Mqtt
