/-!
Topic aliases: small numbers that stand for topic names. Zero is no alias.
-/
namespace Mqtt

structure TopicAlias where
  value : UInt16
  nonzero : value ≠ 0
deriving DecidableEq

namespace TopicAlias

def ofValue? (value : UInt16) : Option TopicAlias :=
  if nonzero : value ≠ 0 then some ⟨value, nonzero⟩ else none

/-- The slot of an alias table that belongs to the alias. -/
def slot (name : TopicAlias) : Nat := name.value.toNat - 1

@[ext] theorem ext {first second : TopicAlias} (same : first.value = second.value) :
    first = second := by
  cases first
  cases second
  congr

@[simp] theorem ofValue?_value (name : TopicAlias) : ofValue? name.value = some name := by
  simp [ofValue?, name.nonzero]

theorem ofValue?_eq_some_iff {value : UInt16} {name : TopicAlias} :
    ofValue? value = some name ↔ name.value = value := by
  constructor
  · intro found
    unfold ofValue? at found
    split at found <;> cases found
    rfl
  · rintro rfl
    exact ofValue?_value name

theorem value_pos (name : TopicAlias) : 0 < name.value.toNat := by
  have nonzero := name.nonzero
  rw [Ne, ← UInt16.toNat_inj] at nonzero
  exact Nat.pos_of_ne_zero nonzero

theorem slot_injective {first second : TopicAlias} (same : first.slot = second.slot) :
    first = second := by
  have positive := first.value_pos
  have also_positive := second.value_pos
  unfold slot at same
  exact ext (UInt16.toNat_inj.mp (by omega))

end TopicAlias
end Mqtt
