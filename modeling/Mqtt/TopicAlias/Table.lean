import Mqtt.Topic
import Mqtt.TopicAlias

/-!
Topic alias tables: a slot for each alias up to the negotiated maximum, filled with the topic that
was registered last. Registering an alias beyond the maximum changes nothing.
-/
namespace Mqtt

structure AliasTable where
  slots : Array (Option Topic)
deriving DecidableEq

namespace AliasTable

def empty (maximum : Nat) : AliasTable := ⟨Array.replicate maximum none⟩

/-- The topic alias maximum. -/
def size (table : AliasTable) : Nat := table.slots.size

def contains (table : AliasTable) (name : TopicAlias) : Bool :=
  name.value.toNat ≤ table.size

def get? (table : AliasTable) (name : TopicAlias) : Option Topic :=
  (table.slots[name.slot]?).join

def set (table : AliasTable) (name : TopicAlias) (topic : Topic) : AliasTable :=
  ⟨table.slots.setIfInBounds name.slot (some topic)⟩

/-- Forgets every topic and keeps the size. -/
def clear (table : AliasTable) : AliasTable := empty table.size

theorem contains_iff_slot {table : AliasTable} {name : TopicAlias} :
    table.contains name ↔ name.slot < table.size := by
  have positive := name.value_pos
  simp only [contains, TopicAlias.slot, decide_eq_true_eq]
  omega

@[simp] theorem size_empty (maximum : Nat) : (empty maximum).size = maximum := by
  simp [empty, size]

@[simp] theorem size_set (table : AliasTable) (name : TopicAlias) (topic : Topic) :
    (table.set name topic).size = table.size := by
  simp [set, size]

@[simp] theorem size_clear (table : AliasTable) : table.clear.size = table.size := by
  simp [clear]

@[simp] theorem get?_empty (maximum : Nat) (name : TopicAlias) : (empty maximum).get? name = none := by
  simp only [get?, empty, Array.getElem?_replicate]
  split <;> rfl

theorem get?_set_self {table : AliasTable} {name : TopicAlias} (inside : table.contains name)
    (topic : Topic) : (table.set name topic).get? name = some topic := by
  have bound := contains_iff_slot.mp inside
  simp only [size] at bound
  simp [get?, set, bound]

theorem get?_set_other {name other : TopicAlias} (different : other ≠ name) (table : AliasTable)
    (topic : Topic) : (table.set name topic).get? other = table.get? other := by
  have apart : name.slot ≠ other.slot :=
    fun same => different (TopicAlias.slot_injective same).symm
  simp [get?, set, apart]

theorem set_eq_self {table : AliasTable} {name : TopicAlias} (outside : table.contains name = false)
    (topic : Topic) : table.set name topic = table := by
  have bound : ¬ name.slot < table.slots.size := by
    intro inside
    have found := contains_iff_slot.mpr inside
    rw [outside] at found
    cases found
  simp [set, Array.setIfInBounds, bound]

end AliasTable
end Mqtt
