import Mathlib.Data.List.Nodup
import Mqtt.Arena

/-!
What an arena holds, as a list of handles with their values. The order of the list means nothing; each
operation of an arena changes one entry of it or none.
-/
namespace Mqtt.Arena

variable {α : Type} {σ : Type → Type} [Arena σ]

/-- The arena reaches these values by their handles, and no others. -/
structure Holds (arena : σ α) (entries : List (Handle × α)) : Prop where
  distinct : (entries.map Prod.fst).Nodup
  found : ∀ handle value, get? arena handle = some value ↔ (handle, value) ∈ entries

namespace Holds

variable {arena : σ α} {entries front back : List (Handle × α)} {handle : Handle} {value : α}

theorem get?_middle (holds : Holds arena (front ++ (handle, value) :: back)) :
    get? arena handle = some value :=
  (holds.found handle value).mpr (List.mem_append_right front List.mem_cons_self)

theorem get?_eq_none (holds : Holds arena entries) (absent : handle ∉ entries.map Prod.fst) :
    get? arena handle = none := by
  apply Option.eq_none_iff_forall_ne_some.mpr
  intro value reached
  exact absent (List.mem_map_of_mem ((holds.found handle value).mp reached))

theorem isSome_get?_iff (holds : Holds arena entries) :
    (get? arena handle).isSome ↔ handle ∈ entries.map Prod.fst := by
  rw [Option.isSome_iff_exists, List.mem_map]
  constructor
  · rintro ⟨value, reached⟩
    exact ⟨(handle, value), (holds.found handle value).mp reached, rfl⟩
  · rintro ⟨⟨_, value⟩, member, rfl⟩
    exact ⟨value, (holds.found _ value).mpr member⟩

/-- No handle stands for two entries. -/
theorem not_mem_beside (holds : Holds arena (front ++ (handle, value) :: back)) (other : α) :
    (handle, other) ∉ front ++ back := by
  have distinct := holds.distinct
  rw [List.map_append, List.map_cons, List.nodup_middle, ← List.map_append] at distinct
  exact fun member => (List.nodup_cons.mp distinct).1 (List.mem_map.mpr ⟨_, member, rfl⟩)

theorem mem_middle_iff {other : Handle} (different : other ≠ handle) (here there : α) :
    (other, there) ∈ front ++ (handle, here) :: back ↔ (other, there) ∈ front ++ back := by
  simp [different]

variable [LawfulArena σ]

theorem empty : Holds (Arena.empty : σ α) [] where
  distinct := List.nodup_nil
  found handle value := by
    constructor
    · intro reached
      exact absurd (LawfulArena.issued_of_get? reached) (LawfulArena.not_issued_empty handle)
    · nofun

theorem clear : Holds (Arena.clear arena) [] where
  distinct := List.nodup_nil
  found handle value := by simp [LawfulArena.get?_clear]

/-- A handle that is given out reaches nothing before. -/
theorem insert (holds : Holds arena entries) (value : α) :
    Holds (Arena.insert arena value).2 (entries ++ [((Arena.insert arena value).1, value)]) := by
  have unused (other : α) : ((Arena.insert arena value).1, other) ∉ entries := fun member =>
    LawfulArena.not_issued_insert arena value
      (LawfulArena.issued_of_get? ((holds.found _ other).mpr member))
  constructor
  · rw [List.map_append, List.map_singleton, ← List.concat_eq_append, List.nodup_concat]
    refine ⟨fun member => ?_, holds.distinct⟩
    obtain ⟨⟨_, other⟩, present, rfl⟩ := List.mem_map.mp member
    exact unused other present
  · intro handle other
    rw [LawfulArena.get?_insert, List.mem_append, List.mem_singleton, Prod.mk.injEq]
    by_cases same : handle = (Arena.insert arena value).1
    · rw [if_pos same, same]
      simp [unused other, eq_comm]
    · rw [if_neg same, holds.found]
      simp [same]

theorem modify (holds : Holds arena (front ++ (handle, value) :: back)) (change : α → α) :
    Holds (Arena.modify arena handle change) (front ++ (handle, change value) :: back) where
  distinct := by simpa using holds.distinct
  found other changed := by
    rw [LawfulArena.get?_modify]
    by_cases same : other = handle
    · have beside := holds.not_mem_beside changed
      rw [List.mem_append, not_or] at beside
      rw [if_pos same, same, holds.get?_middle]
      simp [beside.1, beside.2, eq_comm]
    · rw [if_neg same, holds.found, mem_middle_iff same, mem_middle_iff same]

theorem remove (holds : Holds arena (front ++ (handle, value) :: back)) :
    Holds (Arena.remove arena handle).2 (front ++ back) where
  distinct := by
    have distinct := holds.distinct
    rw [List.map_append, List.map_cons, List.nodup_middle, ← List.map_append] at distinct
    exact (List.nodup_cons.mp distinct).2
  found other kept := by
    rw [LawfulArena.get?_remove]
    by_cases same : other = handle
    · rw [if_pos same, same]
      simpa using holds.not_mem_beside kept
    · rw [if_neg same, holds.found, mem_middle_iff same]

/-- A handle that reaches nothing changes nothing. -/
theorem modify_absent (holds : Holds arena entries) (absent : handle ∉ entries.map Prod.fst)
    (change : α → α) : Holds (Arena.modify arena handle change) entries where
  distinct := holds.distinct
  found other value := by
    rw [LawfulArena.get?_modify, ← holds.found]
    by_cases same : other = handle
    · rw [if_pos same, same, holds.get?_eq_none absent, Option.map_none]
    · rw [if_neg same]

theorem remove_absent (holds : Holds arena entries) (absent : handle ∉ entries.map Prod.fst) :
    Holds (Arena.remove arena handle).2 entries where
  distinct := holds.distinct
  found other value := by
    rw [LawfulArena.get?_remove, ← holds.found]
    by_cases same : other = handle
    · rw [if_pos same, same, holds.get?_eq_none absent]
    · rw [if_neg same]

theorem size (holds : Holds arena entries) : Arena.size arena = entries.length := by
  rw [← List.length_map (f := Prod.fst)]
  exact LawfulArena.size_eq holds.distinct fun handle => holds.isSome_get?_iff.symm

end Holds
end Mqtt.Arena
