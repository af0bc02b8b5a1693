import Mqtt.Arena
import Std.Data.HashMap

/-!
Arenas that number their handles: each handle is the number behind the one given out before. A number
is not used again, so that a handle tells its value from all others that were ever there.
-/
namespace Mqtt

structure NumberedArena (α : Type) where
  values : Std.HashMap Handle α
  /-- The number of the next handle. -/
  next : Nat
  positive : 0 < next
  numbered : ∀ handle ∈ values, 0 < handle.key ∧ handle.key < next

namespace NumberedArena

variable {α : Type}

def empty : NumberedArena α where
  values := {}
  next := 1
  positive := Nat.one_pos
  numbered _ member := absurd member Std.HashMap.not_mem_empty

def insert (arena : NumberedArena α) (value : α) : Handle × NumberedArena α :=
  (⟨arena.next⟩,
    { values := arena.values.insert ⟨arena.next⟩ value
      next := arena.next + 1
      positive := Nat.succ_pos _
      numbered := fun handle member => by
        rcases Std.HashMap.mem_insert.mp member with new | old
        · cases beq_iff_eq.mp new
          exact ⟨arena.positive, Nat.lt_succ_self _⟩
        · have bounds := arena.numbered handle old
          exact ⟨bounds.1, Nat.lt_succ_of_lt bounds.2⟩ })

def modify (arena : NumberedArena α) (handle : Handle) (change : α → α) : NumberedArena α :=
  { arena with
    values := arena.values.modify handle change
    numbered := fun other member => arena.numbered other (Std.HashMap.mem_modify.mp member) }

def remove (arena : NumberedArena α) (handle : Handle) : Option α × NumberedArena α :=
  (arena.values[handle]?,
    { arena with
      values := arena.values.erase handle
      numbered := fun other member => arena.numbered other (Std.HashMap.mem_erase.mp member).2 })

/-- The numbers go on where they were. -/
def clear (arena : NumberedArena α) : NumberedArena α :=
  { arena with
    values := {}
    numbered := fun _ member => absurd member Std.HashMap.not_mem_empty }

instance : Arena NumberedArena where
  empty := empty
  size arena := arena.values.size
  get? arena handle := arena.values[handle]?
  insert := insert
  modify := modify
  remove := remove
  clear := clear

/-- Lists without repetition that have the same members are of the same length. -/
private theorem length_eq_of_mem_iff {first second : List Handle} (distinct : first.Nodup)
    (also : second.Nodup) (same : ∀ handle, handle ∈ first ↔ handle ∈ second) :
    first.length = second.length :=
  Nat.le_antisymm (distinct.length_le_of_subset fun handle => (same handle).mp)
    (also.length_le_of_subset fun handle => (same handle).mpr)

instance : LawfulArena NumberedArena where
  Issued arena handle := 0 < handle.key ∧ handle.key < arena.next
  not_issued_empty handle issued := Nat.not_lt.mpr issued.1 issued.2
  not_issued_insert arena value issued := Nat.lt_irrefl _ issued.2
  issued_insert arena value handle := by
    have positive := arena.positive
    obtain ⟨key⟩ := handle
    simp only [Arena.insert, insert, Handle.mk.injEq]
    omega
  issued_modify _ _ _ _ := Iff.rfl
  issued_remove _ _ _ := Iff.rfl
  issued_clear _ _ := Iff.rfl
  issued_of_get? {_ arena handle value} found := by
    apply arena.numbered
    apply Std.HashMap.mem_iff_isSome_getElem?.mpr
    exact Option.isSome_iff_exists.mpr ⟨value, found⟩
  get?_null arena := by
    apply Std.HashMap.getElem?_eq_none
    intro member
    exact Nat.lt_irrefl 0 (arena.numbered _ member).1
  get?_insert arena value handle := by
    simp only [Arena.get?, Arena.insert, insert, Std.HashMap.getElem?_insert, beq_iff_eq,
      @eq_comm _ handle]
  get?_modify arena changed change handle := by
    simp only [Arena.get?, Arena.modify, modify, Std.HashMap.getElem?_modify, beq_iff_eq]
    by_cases same : handle = changed
    · rw [if_pos same.symm, if_pos same, same]
    · rw [if_neg (Ne.symm same), if_neg same]
  get?_remove arena removed handle := by
    simp only [Arena.get?, Arena.remove, remove, Std.HashMap.getElem?_erase, beq_iff_eq,
      @eq_comm _ handle]
  get?_clear arena handle := Std.HashMap.getElem?_empty
  fst_remove _ _ := rfl
  size_eq {_ arena handles} distinct reached := by
    have members (handle : Handle) : handle ∈ arena.values.keys ↔ handle ∈ handles := by
      rw [Std.HashMap.mem_keys, Std.HashMap.mem_iff_isSome_getElem?]
      exact (reached handle).symm
    calc arena.values.size
      _ = arena.values.keys.length := Std.HashMap.length_keys.symm
      _ = handles.length := length_eq_of_mem_iff Std.HashMap.nodup_keys distinct members

end NumberedArena
end Mqtt
