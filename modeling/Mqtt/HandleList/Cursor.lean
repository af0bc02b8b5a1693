import Mqtt.HandleList

/-!
Walking through a handle list in insertion order. A cursor counts the elements that are still to
come; the count comes from the size of the list and the walk follows the links.
-/
namespace Mqtt.HandleList

variable {α : Type} {σ : Type → Type} [Arena σ]

structure Cursor (α : Type) (σ : Type → Type) [Arena σ] where
  list : HandleList α σ
  next : Option Handle
  remaining : Nat

def cursor (list : HandleList α σ) : Cursor α σ := ⟨list, list.first, list.size⟩

/-- How many elements are still to come, at least and at most. -/
def Cursor.sizeHint (cursor : Cursor α σ) : Nat × Option Nat := (cursor.remaining, some cursor.remaining)

/-- The next element, and the cursor behind it. -/
def Cursor.advance (cursor : Cursor α σ) : Option α × Cursor α σ :=
  match cursor.next.bind fun handle => Arena.get? cursor.list.nodes handle with
  | none => (none, cursor)
  | some node => (some node.element, { cursor with next := node.next, remaining := cursor.remaining - 1 })

/-- At most `count` elements, and the cursor behind them. -/
def Cursor.take (cursor : Cursor α σ) : Nat → List α × Cursor α σ
  | 0 => ([], cursor)
  | count + 1 =>
    match cursor.advance with
    | (none, stopped) => ([], stopped)
    | (some element, following) =>
      let (elements, behind) := following.take count
      (element :: elements, behind)

def toList (list : HandleList α σ) : List α := (list.cursor.take list.size).1

instance [ToString α] : ToString (HandleList α σ) where
  toString list := "[" ++ String.intercalate ", " (list.toList.map toString) ++ "]"

end Mqtt.HandleList
