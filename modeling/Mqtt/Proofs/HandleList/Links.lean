import Mqtt.HandleList.Cursor
import Mqtt.Proofs.Arena

/-!
The links of a handle list. Entries in a row stand for nodes that know their neighbours, and a list
has the entries whose nodes its arena holds. Adding and removing cut a list into two rows and mend the
ends where they meet. Which handles an arena gives out is not covered.
-/
namespace Mqtt.HandleList

variable {α : Type} {σ : Type → Type} [Arena σ]

/-- What stands first in a row: its first entry, or what comes behind a row without entries. -/
def firstOf : List (Handle × α) → Option Handle → Option Handle
  | [], after => after
  | entry :: _, _ => some entry.1

def lastOf (before : Option Handle) : List (Handle × α) → Option Handle
  | [] => before
  | entry :: rest => lastOf (some entry.1) rest

/-- The nodes of the entries in a row, with what comes before and behind the row. -/
def nodesOf (before : Option Handle) :
    List (Handle × α) → Option Handle → List (Handle × Node α)
  | [], _ => []
  | (handle, element) :: rest, after =>
    (handle, ⟨element, before, firstOf rest after⟩) :: nodesOf (some handle) rest after

@[simp] theorem firstOf_nil (after : Option Handle) :
    firstOf ([] : List (Handle × α)) after = after := rfl

@[simp] theorem firstOf_cons (entry : Handle × α) (rest : List (Handle × α))
    (after : Option Handle) : firstOf (entry :: rest) after = some entry.1 := rfl

section Rows

variable (before after : Option Handle) (front back : List (Handle × α))

theorem firstOf_append : firstOf (front ++ back) after = firstOf front (firstOf back after) := by
  cases front <;> rfl

theorem lastOf_append : lastOf before (front ++ back) = lastOf (lastOf before front) back := by
  induction front generalizing before with
  | nil => rfl
  | cons entry rest ih => exact ih _

theorem nodesOf_append :
    nodesOf before (front ++ back) after =
      nodesOf before front (firstOf back after) ++ nodesOf (lastOf before front) back after := by
  induction front generalizing before with
  | nil => rfl
  | cons entry rest ih =>
    simp only [List.cons_append, nodesOf, firstOf_append, ih, lastOf]

theorem map_fst_nodesOf : (nodesOf before front after).map Prod.fst = front.map Prod.fst := by
  induction front generalizing before with
  | nil => rfl
  | cons entry rest ih => simp only [nodesOf, List.map_cons, ih]

theorem map_element_nodesOf :
    (nodesOf before front after).map (fun entry => (entry.1, entry.2.element)) = front := by
  induction front generalizing before with
  | nil => rfl
  | cons entry rest ih => simp only [nodesOf, List.map_cons, ih]

end Rows

variable {list : HandleList α σ} {entries front back : List (Handle × α)} {handle : Handle}
  {element : α} {before after : Option Handle}

/-- A list that is cut in two: `after` follows the first row, and `before` precedes the second. -/
structure Cut (list : HandleList α σ) (front : List (Handle × α)) (after before : Option Handle)
    (back : List (Handle × α)) : Prop where
  nodes : Arena.Holds list.nodes (nodesOf none front after ++ nodesOf before back none)
  first : list.first = firstOf front after
  last : list.last = lastOf before back

/-- The list has these entries, in their order. -/
structure Links (list : HandleList α σ) (entries : List (Handle × α)) : Prop where
  nodes : Arena.Holds list.nodes (nodesOf none entries none)
  first : list.first = firstOf entries none
  last : list.last = lastOf none entries

/-- Two rows that know of each other are one. -/
theorem Cut.links (cut : list.Cut front (firstOf back none) (lastOf none front) back) :
    list.Links (front ++ back) where
  nodes := by
    rw [nodesOf_append]
    exact cut.nodes
  first := by rw [cut.first, firstOf_append]
  last := by rw [cut.last, lastOf_append]

theorem Links.get?_nodes (links : list.Links (front ++ (handle, element) :: back)) :
    Arena.get? list.nodes handle = some ⟨element, lastOf none front, firstOf back none⟩ := by
  have nodes := links.nodes
  rw [nodesOf_append, nodesOf] at nodes
  exact nodes.get?_middle

theorem Links.contains_iff (links : list.Links entries) :
    list.contains handle ↔ handle ∈ entries.map Prod.fst := by
  rw [contains, links.nodes.isSome_get?_iff, map_fst_nodesOf]

theorem reached_some {node : Node α} (found : Arena.get? list.nodes handle = some node) :
    list.reached (some handle) = some handle := by
  rw [reached, Option.filter_some, contains, found]
  rfl

/-- What comes last plays no part in linking an entry to the next. -/
private theorem linkNext_last (list : HandleList α σ) (previous next last : Option Handle) :
    { list.linkNext previous next with last := last } =
      { list with last := last }.linkNext previous next := by
  have same : { list with last := last }.reached previous = list.reached previous := rfl
  unfold HandleList.linkNext
  rw [same]
  cases list.reached previous <;> rfl

section Lawful

variable [LawfulArena σ]

theorem Cut.linkNext (cut : list.Cut front after before back) (next : Option Handle) :
    (list.linkNext (lastOf none front) next).Cut front next before back := by
  rcases List.eq_nil_or_concat front with rfl | ⟨others, ⟨handle, element⟩, rfl⟩
  · exact ⟨cut.nodes, rfl, cut.last⟩
  · rw [List.concat_eq_append] at cut ⊢
    have nodes := cut.nodes
    rw [nodesOf_append, List.append_assoc] at nodes
    have mended := nodes.modify fun node => { node with next := next }
    rw [lastOf_append, HandleList.linkNext, lastOf, lastOf, reached_some nodes.get?_middle]
    refine ⟨?_, ?_, cut.last⟩
    · rw [nodesOf_append, List.append_assoc]
      exact mended
    · rw [cut.first, firstOf_append, firstOf_append]
      rfl

theorem Cut.linkPrevious (cut : list.Cut front after before back) (previous : Option Handle) :
    (list.linkPrevious (firstOf back none) previous).Cut front after previous back := by
  cases back with
  | nil => exact ⟨cut.nodes, cut.first, rfl⟩
  | cons entry rest =>
    have nodes := cut.nodes
    rw [nodesOf] at nodes
    have mended := nodes.modify fun node => { node with previous := previous }
    rw [firstOf, HandleList.linkPrevious, reached_some nodes.get?_middle]
    exact ⟨mended, cut.first, cut.last⟩

theorem links_empty : (empty : HandleList α σ).Links [] := ⟨.empty, rfl, rfl⟩

theorem links_clear (list : HandleList α σ) : list.clear.Links [] := ⟨.clear, rfl, rfl⟩

theorem Links.add (links : list.Links entries) (element : α) :
    (list.add element).2.Links (entries ++ [((list.add element).1, element)]) := by
  have nodes := links.nodes.insert ⟨element, list.last, none⟩
  rw [links.last] at nodes
  apply Cut.links
  unfold HandleList.add
  dsimp only
  rw [linkNext_last, links.last]
  apply Cut.linkNext
  exact ⟨nodes, links.first, rfl⟩

theorem Links.remove (links : list.Links (front ++ (handle, element) :: back)) :
    (list.remove handle).1 = some element ∧ (list.remove handle).2.Links (front ++ back) := by
  have found : (Arena.remove list.nodes handle).1 =
      some ⟨element, lastOf none front, firstOf back none⟩ := by
    rw [LawfulArena.fst_remove, links.get?_nodes]
  have nodes := links.nodes
  rw [nodesOf_append, nodesOf] at nodes
  have shortened : { list with nodes := (Arena.remove list.nodes handle).2 }.Cut front (some handle)
      (some handle) back := by
    refine ⟨nodes.remove, ?_, ?_⟩
    · rw [links.first, firstOf_append]
      rfl
    · rw [links.last, lastOf_append]
      rfl
  have mended := (shortened.linkNext (firstOf back none)).linkPrevious (lastOf none front)
  rw [HandleList.remove]
  generalize Arena.remove list.nodes handle = removed at found mended ⊢
  obtain ⟨node, rest⟩ := removed
  cases found
  exact ⟨rfl, mended.links⟩

theorem Links.remove_absent (links : list.Links entries) (absent : handle ∉ entries.map Prod.fst) :
    (list.remove handle).1 = none ∧ (list.remove handle).2.Links entries := by
  rw [← map_fst_nodesOf none none] at absent
  have missing : (Arena.remove list.nodes handle).1 = none := by
    rw [LawfulArena.fst_remove, links.nodes.get?_eq_none absent]
  have kept := links.nodes.remove_absent absent
  rw [HandleList.remove]
  generalize Arena.remove list.nodes handle = removed at missing kept ⊢
  obtain ⟨node, rest⟩ := removed
  cases missing
  exact ⟨rfl, kept, links.first, links.last⟩

theorem Links.modify (links : list.Links (front ++ (handle, element) :: back)) (change : α → α) :
    (list.modify handle change).Links (front ++ (handle, change element) :: back) := by
  have nodes := links.nodes
  rw [nodesOf_append, nodesOf] at nodes
  have changed := nodes.modify fun node => { node with element := change node.element }
  refine ⟨?_, ?_, ?_⟩
  · rw [nodesOf_append, nodesOf]
    exact changed
  · rw [HandleList.modify, links.first, firstOf_append, firstOf_append]
    rfl
  · rw [HandleList.modify, links.last, lastOf_append, lastOf_append]
    rfl

theorem Links.modify_absent (links : list.Links entries) (absent : handle ∉ entries.map Prod.fst)
    (change : α → α) : (list.modify handle change).Links entries := by
  rw [← map_fst_nodesOf none none] at absent
  exact ⟨links.nodes.modify_absent absent _, links.first, links.last⟩

end Lawful

end Mqtt.HandleList
