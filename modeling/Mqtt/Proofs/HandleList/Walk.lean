import Mqtt.Proofs.HandleList.Links

/-!
What is seen of a handle list. A walk along the links comes by every entry once and in order, and the
handles reach the entries and nothing else.
-/
namespace Mqtt.HandleList

variable {α : Type} {σ : Type → Type} [Arena σ] {list : HandleList α σ}
  {entries front back : List (Handle × α)}

/-- From any place of the list on, the walk gives the elements behind the place. -/
theorem Links.take (links : list.Links (front ++ back)) (remaining count : Nat) :
    (Cursor.mk list (firstOf back none) remaining).take count =
      ((back.map Prod.snd).take count,
        ⟨list, firstOf (back.drop count) none, remaining - min count back.length⟩) := by
  induction count generalizing front back remaining with
  | zero => simp [Cursor.take]
  | succ count ih =>
    cases back with
    | nil => simp [Cursor.take, Cursor.advance]
    | cons entry rest =>
      obtain ⟨handle, element⟩ := entry
      have found := links.get?_nodes
      have behind := ih (List.append_cons front _ rest ▸ links) (remaining - 1)
      have left : remaining - 1 - min count rest.length = remaining - min (count + 1) (rest.length + 1) := by
        omega
      simp only [Cursor.take, Cursor.advance, firstOf_cons, Option.bind_some, found, behind, left,
        List.map_cons, List.take_succ_cons, List.drop_succ_cons, List.length_cons]

theorem Links.cursor_take (links : list.Links entries) (count : Nat) :
    (list.cursor.take count).1 = (entries.map Prod.snd).take count := by
  have whole : list.Links ([] ++ entries) := links
  rw [cursor, links.first, whole.take]

theorem Links.get?_eq_some_iff (links : list.Links entries) {handle : Handle} {element : α} :
    list.get? handle = some element ↔ (handle, element) ∈ entries := by
  rw [get?, Option.map_eq_some_iff]
  constructor
  · rintro ⟨node, found, rfl⟩
    have member := List.mem_map_of_mem (f := fun entry => (entry.1, entry.2.element))
      ((links.nodes.found handle node).mp found)
    rwa [map_element_nodesOf] at member
  · intro member
    obtain ⟨front, back, rfl⟩ := List.append_of_mem member
    exact ⟨_, links.get?_nodes, rfl⟩

theorem Links.get?_eq_none_iff (links : list.Links entries) {handle : Handle} :
    list.get? handle = none ↔ handle ∉ entries.map Prod.fst := by
  rw [← links.contains_iff, contains, get?, Option.map_eq_none_iff, Option.not_isSome_iff_eq_none]

/-- What the owner of a list sees of it: its entries, by their handles and in their order. -/
structure Shows (list : HandleList α σ) (entries : List (Handle × α)) : Prop where
  distinct : (entries.map Prod.fst).Nodup
  get? : ∀ handle element, list.get? handle = some element ↔ (handle, element) ∈ entries
  contains : ∀ handle, list.contains handle ↔ handle ∈ entries.map Prod.fst
  size : list.size = entries.length
  isEmpty : list.isEmpty = entries.isEmpty
  first? : list.first? = (entries.map Prod.snd).head?
  last? : list.last? = (entries.map Prod.snd).getLast?
  /-- However many elements are asked for, and the walk ends behind the last. -/
  walk : ∀ count, (list.cursor.take count).1 = (entries.map Prod.snd).take count
  toList : list.toList = entries.map Prod.snd

private theorem Links.first? (links : list.Links entries) :
    list.first? = (entries.map Prod.snd).head? := by
  cases entries with
  | nil => rw [HandleList.first?, links.first]; rfl
  | cons entry rest =>
    rw [HandleList.first?, links.first]
    exact links.get?_eq_some_iff.mpr List.mem_cons_self

private theorem Links.last? (links : list.Links entries) :
    list.last? = (entries.map Prod.snd).getLast? := by
  rcases List.eq_nil_or_concat entries with rfl | ⟨others, entry, rfl⟩
  · rw [HandleList.last?, links.last]; rfl
  · rw [HandleList.last?, links.last, List.concat_eq_append, lastOf_append, List.map_append,
      List.map_singleton, List.getLast?_concat]
    exact links.get?_eq_some_iff.mpr (by simp)

variable [LawfulArena σ]

theorem Links.size (links : list.Links entries) : list.size = entries.length := by
  rw [HandleList.size, links.nodes.size, ← List.length_map (f := Prod.fst), map_fst_nodesOf,
    List.length_map]

theorem Links.shows (links : list.Links entries) : list.Shows entries where
  distinct := map_fst_nodesOf none none entries ▸ links.nodes.distinct
  get? _ _ := links.get?_eq_some_iff
  contains _ := links.contains_iff
  size := links.size
  isEmpty := by
    rw [HandleList.isEmpty, links.size]
    cases entries <;> rfl
  first? := links.first?
  last? := links.last?
  walk := links.cursor_take
  toList := by rw [HandleList.toList, links.cursor_take, links.size, ← List.length_map (f := Prod.snd),
    List.take_length]

end Mqtt.HandleList
