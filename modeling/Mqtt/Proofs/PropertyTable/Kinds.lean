import Mathlib.Data.List.Basic
import Mqtt.Proofs.PropertyTable

/-!
The properties of a table by their kinds. Of a single kind there is one property at most, wherever it
stands. So a record that picks the single ones and the lists of the others has all of them.
-/
namespace Mqtt.PropertySchema

variable {ε α β : Type} {schema : PropertySchema ε α} {make : β → α} {id : PropertyId}
  {properties : List α}

section Picking

variable {pick : α → Option β}

/-- There is at most one single property of a kind, so that the first one found is the only one. -/
theorem findSome?_eq_some_iff_mem (unrepeated : schema.Unrepeated properties)
    (single : id.mayRepeat = false) (identified : ∀ value, schema.id (make value) = id)
    (picks : ∀ property value, pick property = some value ↔ property = make value) (value : β) :
    properties.findSome? pick = some value ↔ make value ∈ properties := by
  constructor
  · intro found
    obtain ⟨property, member, picked⟩ := List.exists_of_findSome?_eq_some found
    rwa [← (picks property value).mp picked]
  · intro member
    cases found : properties.findSome? pick with
    | none =>
      have missed := List.findSome?_eq_none_iff.mp found _ member
      rw [(picks _ value).mpr rfl] at missed
      cases missed
    | some other =>
      obtain ⟨property, present, picked⟩ := List.exists_of_findSome?_eq_some found
      have same : make value = property := by
        rw [(picks property other).mp picked] at present ⊢
        apply unrepeated.eq_of_id member present
        · exact (identified value).trans (identified other).symm
        · exact (congrArg PropertyId.mayRepeat (identified value)).trans single
      rw [← same, (picks _ value).mpr rfl] at picked
      exact picked.symm

theorem map_filterMap_eq_filter (schema : PropertySchema ε α)
    (covers : ∀ property, schema.id property = id ↔ ∃ value, make value = property)
    (picks : ∀ property value, pick property = some value ↔ property = make value)
    (properties : List α) :
    (properties.filterMap pick).map make =
      properties.filter fun property => schema.id property == id := by
  induction properties with
  | nil => rfl
  | cons property rest ih =>
    by_cases kind : schema.id property = id
    · obtain ⟨value, rfl⟩ := (covers property).mp kind
      simp [(picks _ value).mpr rfl, kind, ih]
    · have skipped : pick property = none := by
        apply Option.eq_none_iff_forall_not_mem.mpr
        intro value picked
        exact kind ((covers property).mpr ⟨value, ((picks property value).mp picked).symm⟩)
      simp [skipped, kind, ih]

end Picking

/-- Of a single kind there is the property that was collected, or none. -/
theorem toList_eq_filter (schema : PropertySchema ε α) (id : PropertyId) {field : Option β}
    (unrepeated : schema.Unrepeated properties) (single : id.mayRepeat = false)
    (covers : ∀ property, schema.id property = id ↔ ∃ value, make value = property)
    (collected : ∀ value, field = some value ↔ make value ∈ properties) :
    (field.map make).toList = properties.filter fun property => schema.id property == id := by
  have mem_iff : ∀ property, property ∈ (properties.filter fun property => schema.id property == id) ↔
      property ∈ properties ∧ schema.id property = id := by simp
  have alone : (properties.filter fun property => schema.id property == id).Pairwise
      fun _ _ => False := by
    refine (unrepeated.filter _).imp_of_mem fun {first second} member other compatible => ?_
    have named := ((mem_iff first).mp member).2
    have repeated := compatible (named.trans ((mem_iff second).mp other).2.symm)
    rw [named, single] at repeated
    cases repeated
  generalize (properties.filter fun property => schema.id property == id) = same at mem_iff alone
  cases same with
  | nil =>
    cases field with
    | none => rfl
    | some value =>
      cases (mem_iff (make value)).mpr ⟨(collected value).mp rfl, (covers _).mpr ⟨value, rfl⟩⟩
  | cons property rest =>
    cases rest with
    | cons other rest => cases List.rel_of_pairwise_cons alone List.mem_cons_self
    | nil =>
      obtain ⟨present, named⟩ := (mem_iff property).mp List.mem_cons_self
      obtain ⟨value, rfl⟩ := (covers property).mp named
      rw [(collected value).mpr present]
      rfl

/-- Going by kind rearranges a list of properties whose kinds are all gone through. -/
theorem flatMap_filter_perm (schema : PropertySchema ε α) {kinds : List PropertyId}
    (distinct : kinds.Nodup) (known : ∀ property ∈ properties, schema.id property ∈ kinds) :
    (kinds.flatMap fun kind => properties.filter fun property => schema.id property == kind).Perm
      properties := by
  induction kinds generalizing properties with
  | nil =>
    have empty : properties = [] := List.eq_nil_iff_forall_not_mem.mpr fun property member =>
      List.not_mem_nil (known property member)
    rw [empty]
    exact List.Perm.refl _
  | cons kind kinds ih =>
    obtain ⟨fresh, distinct⟩ := List.nodup_cons.mp distinct
    have remaining : ∀ property ∈ properties.filter fun property => !(schema.id property == kind),
        schema.id property ∈ kinds := by
      intro property member
      obtain ⟨present, other⟩ := List.mem_filter.mp member
      refine List.mem_of_ne_of_mem ?_ (known property present)
      simpa using other
    -- The later kinds have all their properties outside the first kind.
    have same : ∀ later ∈ kinds, (properties.filter fun property => schema.id property == later) =
        (properties.filter fun property => !(schema.id property == kind)).filter
          fun property => schema.id property == later := by
      intro later member
      have apart : later ≠ kind := fun same => fresh (same ▸ member)
      rw [List.filter_filter]
      apply List.filter_congr
      intro property _
      by_cases named : schema.id property = later
      · simp [named, apart]
      · simp [named]
    rw [List.flatMap_cons, List.flatMap_congr same]
    exact ((ih distinct remaining).append_left _).trans (List.filter_append_perm _ properties)

end Mqtt.PropertySchema
