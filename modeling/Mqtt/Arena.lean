/-!
Arenas: stores that give out a handle for each value they take in, and reach the value by the handle
until it is removed. How an arena chooses its handles and where it keeps its values is left open.
-/
namespace Mqtt

structure Handle where
  key : Nat
deriving DecidableEq, Hashable, Repr

/-- Reaches no value of any arena. -/
def Handle.null : Handle := ⟨0⟩

class Arena (σ : Type → Type) where
  empty {α : Type} : σ α
  size {α : Type} : σ α → Nat
  get? {α : Type} : σ α → Handle → Option α
  /-- Takes a value in and gives the handle that it got. -/
  insert {α : Type} : σ α → α → Handle × σ α
  modify {α : Type} : σ α → Handle → (α → α) → σ α
  remove {α : Type} : σ α → Handle → Option α × σ α
  clear {α : Type} : σ α → σ α

/-- What the owner of an arena may rely on: a handle is never given out twice, and it reaches its
value until that is removed or the arena is cleared. -/
class LawfulArena (σ : Type → Type) [Arena σ] where
  /-- The handle was given out, whether or not its value is still there. -/
  Issued {α : Type} : σ α → Handle → Prop
  not_issued_empty {α : Type} (handle : Handle) : ¬ Issued (Arena.empty : σ α) handle
  not_issued_insert {α : Type} (arena : σ α) (value : α) :
    ¬ Issued arena (Arena.insert arena value).1
  issued_insert {α : Type} (arena : σ α) (value : α) (handle : Handle) :
    Issued (Arena.insert arena value).2 handle ↔
      handle = (Arena.insert arena value).1 ∨ Issued arena handle
  issued_modify {α : Type} (arena : σ α) (changed : Handle) (change : α → α) (handle : Handle) :
    Issued (Arena.modify arena changed change) handle ↔ Issued arena handle
  issued_remove {α : Type} (arena : σ α) (removed handle : Handle) :
    Issued (Arena.remove arena removed).2 handle ↔ Issued arena handle
  issued_clear {α : Type} (arena : σ α) (handle : Handle) :
    Issued (Arena.clear arena) handle ↔ Issued arena handle
  /-- Only handles that were given out reach anything. -/
  issued_of_get? {α : Type} {arena : σ α} {handle : Handle} {value : α} :
    Arena.get? arena handle = some value → Issued arena handle
  get?_null {α : Type} (arena : σ α) : Arena.get? arena .null = none
  get?_insert {α : Type} (arena : σ α) (value : α) (handle : Handle) :
    Arena.get? (Arena.insert arena value).2 handle =
      if handle = (Arena.insert arena value).1 then some value else Arena.get? arena handle
  get?_modify {α : Type} (arena : σ α) (changed : Handle) (change : α → α) (handle : Handle) :
    Arena.get? (Arena.modify arena changed change) handle =
      if handle = changed then (Arena.get? arena handle).map change else Arena.get? arena handle
  get?_remove {α : Type} (arena : σ α) (removed handle : Handle) :
    Arena.get? (Arena.remove arena removed).2 handle =
      if handle = removed then none else Arena.get? arena handle
  get?_clear {α : Type} (arena : σ α) (handle : Handle) :
    Arena.get? (Arena.clear arena) handle = none
  fst_remove {α : Type} (arena : σ α) (removed : Handle) :
    (Arena.remove arena removed).1 = Arena.get? arena removed
  /-- The size is the number of handles that reach something. -/
  size_eq {α : Type} {arena : σ α} {handles : List Handle} (distinct : handles.Nodup)
    (reached : ∀ handle, handle ∈ handles ↔ (Arena.get? arena handle).isSome) :
    Arena.size arena = handles.length

end Mqtt
