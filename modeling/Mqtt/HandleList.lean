import Mqtt.Arena.Numbered

/-!
Doubly linked lists whose entries are reached through handles. The entries are kept in an arena, and
the order of the list is in their links alone; appending and removing an entry mends the links of its
neighbours. The handle of a removed entry reaches nothing.
-/
namespace Mqtt

structure HandleList.Node (α : Type) where
  element : α
  previous : Option Handle
  next : Option Handle

/-- A list with its entries in an arena of the kind `σ`. -/
structure HandleList (α : Type) (σ : Type → Type := NumberedArena) [Arena σ] where
  nodes : σ (HandleList.Node α) := Arena.empty
  first : Option Handle := none
  last : Option Handle := none

namespace HandleList

variable {α : Type} {σ : Type → Type} [Arena σ]

def empty : HandleList α σ := {}

def size (list : HandleList α σ) : Nat := Arena.size list.nodes

def isEmpty (list : HandleList α σ) : Bool := list.size == 0

def contains (list : HandleList α σ) (handle : Handle) : Bool := (Arena.get? list.nodes handle).isSome

def get? (list : HandleList α σ) (handle : Handle) : Option α :=
  (Arena.get? list.nodes handle).map Node.element

def first? (list : HandleList α σ) : Option α := list.first.bind list.get?

def last? (list : HandleList α σ) : Option α := list.last.bind list.get?

/-- The handle, if it reaches an entry. -/
def reached (list : HandleList α σ) (handle : Option Handle) : Option Handle :=
  handle.filter list.contains

/-- Makes `next` follow the entry of `previous`; without such an entry it comes first. -/
def linkNext (list : HandleList α σ) (previous next : Option Handle) : HandleList α σ :=
  match list.reached previous with
  | some handle =>
    { list with nodes := Arena.modify list.nodes handle fun node => { node with next := next } }
  | none => { list with first := next }

/-- Makes `previous` precede the entry of `next`; without such an entry it comes last. -/
def linkPrevious (list : HandleList α σ) (next previous : Option Handle) : HandleList α σ :=
  match list.reached next with
  | some handle =>
    { list with nodes := Arena.modify list.nodes handle fun node => { node with previous := previous } }
  | none => { list with last := previous }

/-- Appends an element and gives the handle of its entry. -/
def add (list : HandleList α σ) (element : α) : Handle × HandleList α σ :=
  let (handle, nodes) := Arena.insert list.nodes ⟨element, list.last, none⟩
  let linked := { list with nodes := nodes }.linkNext list.last (some handle)
  (handle, { linked with last := some handle })

/-- Unlinks the entry of a handle and gives its element, if there is such an entry. -/
def remove (list : HandleList α σ) (handle : Handle) : Option α × HandleList α σ :=
  match Arena.remove list.nodes handle with
  | (none, nodes) => (none, { list with nodes := nodes })
  | (some node, nodes) =>
    let shortened := { list with nodes := nodes }
    (some node.element,
      (shortened.linkNext node.previous node.next).linkPrevious node.next node.previous)

/-- Changes the element of an entry, if there is such an entry. -/
def modify (list : HandleList α σ) (handle : Handle) (change : α → α) : HandleList α σ :=
  { list with
    nodes := Arena.modify list.nodes handle fun node => { node with element := change node.element } }

/-- Removes all entries; their handles reach nothing from then on. -/
def clear (list : HandleList α σ) : HandleList α σ := { nodes := Arena.clear list.nodes }

end HandleList
end Mqtt
