import Mathlib.Data.List.Induction
import Mqtt.Proofs.PropertyTable.Refusal

/-!
Tables in another order. Well-formed properties may stand in any order as long as repeated ones keep
theirs: the rearranged table is read as the same properties rearranged, and if a property that may
stand once is repeated in one of the tables it is so in the other.
-/
namespace Mqtt

/-- The same items in another order. Those of one kind that may be repeated keep their order. -/
structure Rearranges {β : Type} (kind : β → PropertyId) (first second : List β) : Prop where
  perm : first.Perm second
  ordered : ∀ id : PropertyId, id.mayRepeat →
    (first.filter fun item => kind item == id) = second.filter fun item => kind item == id

namespace Rearranges

variable {β γ : Type}

protected theorem refl (kind : β → PropertyId) (items : List β) : Rearranges kind items items :=
  ⟨.refl items, fun _ _ => rfl⟩

theorem map {kind : γ → PropertyId} {convert : β → γ} {first second : List β}
    (rearranges : Rearranges (fun item => kind (convert item)) first second) :
    Rearranges kind (first.map convert) (second.map convert) where
  perm := rearranges.perm.map convert
  ordered id repeats := by
    rw [List.filter_map, List.filter_map]
    exact congrArg (List.map convert) (rearranges.ordered id repeats)

end Rearranges

namespace Concatenation

variable {α : Type} {form : α → Bytes → Prop}

theorem of_entries {entries : List (α × Bytes)}
    (spelled : ∀ entry ∈ entries, form entry.1 entry.2) :
    Concatenation form (entries.map Prod.fst) (entries.flatMap Prod.snd) := by
  induction entries with
  | nil => exact .nil
  | cons entry rest ih =>
    obtain ⟨first, following⟩ := List.forall_mem_cons.mp spelled
    exact .cons first (ih following)

theorem exists_entries {items : List α} {encoded : Bytes}
    (listed : Concatenation form items encoded) :
    ∃ entries : List (α × Bytes), entries.map Prod.fst = items ∧
      entries.flatMap Prod.snd = encoded ∧ ∀ entry ∈ entries, form entry.1 entry.2 := by
  induction listed with
  | nil => exact ⟨[], rfl, rfl, nofun⟩
  | @cons item items head tail first _ ih =>
    obtain ⟨entries, rfl, rfl, spelled⟩ := ih
    exact ⟨(item, head) :: entries, rfl, rfl, List.forall_mem_cons.mpr ⟨first, spelled⟩⟩

end Concatenation

namespace PropertySchema

variable {ε α : Type} {schema : PropertySchema ε α} {valueForm : α → Bytes → Prop}

/-- A length field, and as many bytes of well-formed properties. Properties may be repeated. -/
structure Spells (schema : PropertySchema ε α) (valueForm : α → Bytes → Prop) (length : Bytes)
    (entries : List (α × Bytes)) : Prop where
  declared : VarInt.Form (entries.flatMap Prod.snd).length length
  each : ∀ entry ∈ entries, schema.EntryForm valueForm entry.1 entry.2

/-- Two tables of the same properties, each in the same bytes, in another order. -/
inductive Rearranged (schema : PropertySchema ε α) (valueForm : α → Bytes → Prop) :
    Bytes → Bytes → Prop
  | table {length : Bytes} {first second : List (α × Bytes)}
      (spells : schema.Spells valueForm length first)
      (rearranges : Rearranges (fun entry => schema.id entry.1) first second) :
      Rearranged schema valueForm (length ++ first.flatMap Prod.snd)
        (length ++ second.flatMap Prod.snd)

theorem TableForm.rearranged {properties : List α} {encoded : Bytes}
    (listed : schema.TableForm valueForm properties encoded) :
    schema.Rearranged valueForm encoded encoded := by
  obtain ⟨declared, concatenated, -⟩ := listed
  obtain ⟨entries, rfl, rfl, each⟩ := concatenated.exists_entries
  exact .table ⟨declared, each⟩ (.refl _ entries)

section Order

variable {length : Bytes} {first second : List (α × Bytes)}

theorem Spells.rearrange (spells : schema.Spells valueForm length first)
    (rearranges : Rearranges (fun entry => schema.id entry.1) first second) :
    schema.Spells valueForm length second where
  declared := by
    rw [← (rearranges.perm.flatMap_right Prod.snd).length_eq]
    exact spells.declared
  each entry member := spells.each entry (rearranges.perm.mem_iff.mpr member)

/-- Whether a property is repeated does not depend on the order. -/
theorem unrepeated_iff_of_rearranges
    (rearranges : Rearranges (fun entry => schema.id entry.1) first second) :
    schema.Unrepeated (first.map Prod.fst) ↔ schema.Unrepeated (second.map Prod.fst) :=
  (rearranges.perm.map Prod.fst).pairwise_iff fun apart => symm apart

theorem Spells.tableForm (spells : schema.Spells valueForm length first)
    (unrepeated : schema.Unrepeated (first.map Prod.fst)) :
    schema.TableForm valueForm (first.map Prod.fst) (length ++ first.flatMap Prod.snd) :=
  .table spells.declared (.of_entries spells.each) unrepeated

/-- Of repeated properties there is a first one that repeats another. -/
theorem exists_repeated {entries : List (α × Bytes)}
    (repeated : ¬ schema.Unrepeated (entries.map Prod.fst)) :
    ∃ front entry later, entries = front ++ entry :: later ∧
      schema.Unrepeated (front.map Prod.fst) ∧ ∃ earlier ∈ front.map Prod.fst,
        schema.id earlier = schema.id entry.1 ∧ (schema.id earlier).mayRepeat = false := by
  -- From behind, so that the property in question is the last one or one in front of it.
  induction entries using List.reverseRecOn with
  | nil => exact absurd List.Pairwise.nil repeated
  | append_singleton entries entry ih =>
    by_cases before : schema.Unrepeated (entries.map Prod.fst)
    · refine ⟨entries, entry, [], rfl, before, ?_⟩
      by_contra fresh
      simp only [not_exists, not_and, Bool.not_eq_false] at fresh
      apply repeated
      rw [List.map_append, Unrepeated, List.pairwise_append]
      refine ⟨before, List.pairwise_singleton _ _, fun earlier member other alone => ?_⟩
      cases List.mem_singleton.mp alone
      exact fresh earlier member
    · obtain ⟨front, found, later, rfl, rest⟩ := ih before
      exact ⟨front, found, later ++ [entry], by simp, rest⟩

/-- A table with a repeated property is refused for that, wherever the property stands. -/
theorem Spells.read_repeated (described : schema.Describes valueForm)
    (spells : schema.Spells valueForm length first)
    (repeated : ¬ schema.Unrepeated (first.map Prod.fst)) (rest : Bytes) :
    schema.read.run (length ++ (first.flatMap Prod.snd ++ rest)) = .error schema.repeated := by
  obtain ⟨front, ⟨property, encoded⟩, later, rfl, unrepeated, earlier, member, same, single⟩ :=
    exists_repeated repeated
  obtain ⟨before, following⟩ := List.forall_mem_append.mp spells.each
  have found : schema.EntryForm valueForm property encoded := (List.forall_mem_cons.mp following).1
  have declared := spells.declared
  obtain ⟨named, valued⟩ := found
  rename_i name value
  have nonempty := named.length_pos
  -- It is refused as soon as its identifier is read, which is that of the earlier property.
  rw [← same] at named
  simp only [List.flatMap_append, List.flatMap_cons, List.append_assoc] at declared ⊢
  refine read_error_of_stops described declared (.of_entries before) unrepeated ?_ ?_
    (stops_of_repeated (List.mem_reverse.mpr member) (described.admitted earlier) single named)
  · simp only [List.length_append]
    omega
  · simp only [List.length_append]
    omega

end Order

/-- Rearranged tables are read alike: as the same properties in another order or, if a property is
repeated, not at all. -/
theorem Rearranged.read_or_repeated (described : schema.Describes valueForm) {table other : Bytes}
    (rearranged : schema.Rearranged valueForm table other) :
    (∃ first second, Rearranges schema.id first second ∧ schema.TableForm valueForm first table ∧
      schema.TableForm valueForm second other) ∨
    ∃ declared length entries others, VarInt.Form declared length ∧ table = length ++ entries ∧
      other = length ++ others ∧ ∀ rest,
        schema.read.run (length ++ (entries ++ rest)) = .error schema.repeated ∧
          schema.read.run (length ++ (others ++ rest)) = .error schema.repeated := by
  obtain @⟨length, first, second, spells, rearranges⟩ := rearranged
  have respelled := spells.rearrange rearranges
  have alike := unrepeated_iff_of_rearranges rearranges
  by_cases unrepeated : schema.Unrepeated (first.map Prod.fst)
  · exact .inl ⟨_, _, rearranges.map, spells.tableForm unrepeated,
      respelled.tableForm (alike.mp unrepeated)⟩
  · exact .inr ⟨_, length, _, _, spells.declared, rfl, rfl, fun rest =>
      ⟨spells.read_repeated described unrepeated rest,
        respelled.read_repeated described (mt alike.mpr unrepeated) rest⟩⟩

end PropertySchema
end Mqtt
