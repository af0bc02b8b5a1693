import Mathlib.Data.List.Induction
import Mqtt.Proofs.HandleList.Sequence

/-!
The neighbours of the entries of a handle list. In every list that operations lead to, one entry comes
behind another exactly where that one comes before it, and from each end the links lead by all entries
to the other end. Reading a list follows the links in one direction only, so nothing that is read
shows those of the other.
-/
namespace Mqtt.HandleList

variable {α : Type} {σ : Type → Type} [Arena σ]

/-- The handle that an entry has behind it. A handle that reaches no entry has none. -/
def next? (list : HandleList α σ) (handle : Handle) : Option Handle :=
  (Arena.get? list.nodes handle).bind Node.next

def previous? (list : HandleList α σ) (handle : Handle) : Option Handle :=
  (Arena.get? list.nodes handle).bind Node.previous

/-- The handles that steps come by from some place on, up to the one that leads nowhere. -/
inductive Visits (step : Handle → Option Handle) : Option Handle → List Handle → Prop
  | done : Visits step none []
  | step {handle : Handle} {rest : List Handle} (behind : Visits step (step handle) rest) :
      Visits step (some handle) (handle :: rest)

/-- The links of the entries fit together, and so do both ends. -/
structure Chained (list : HandleList α σ) : Prop where
  first_eq_none_iff : list.first = none ↔ ∀ handle, ¬ list.contains handle
  last_eq_none_iff : list.last = none ↔ ∀ handle, ¬ list.contains handle
  first : ∀ handle, list.first = some handle → list.contains handle ∧ list.previous? handle = none
  last : ∀ handle, list.last = some handle → list.contains handle ∧ list.next? handle = none
  /-- Each link has its counterpart. -/
  next?_iff : ∀ handle other, list.next? handle = some other ↔ list.previous? other = some handle
  /-- No link leads to or from an entry that was removed. -/
  contains : ∀ handle other, list.next? handle = some other →
    list.contains handle ∧ list.contains other
  /-- All entries, each of them once: forwards from the first to the last, and backwards from there. -/
  visits : ∃ handles : List Handle, handles.Nodup ∧
    (∀ handle, handle ∈ handles ↔ list.contains handle) ∧
    Visits list.next? list.first handles ∧ handles.getLast? = list.last ∧
    Visits list.previous? list.last handles.reverse

section Rows

variable (entries : List (Handle × α))

theorem firstOf_none : firstOf entries none = (entries.map Prod.fst).head? := by
  cases entries <;> rfl

theorem lastOf_none : lastOf none entries = (entries.map Prod.fst).getLast? := by
  rcases List.eq_nil_or_concat entries with rfl | ⟨others, entry, rfl⟩
  · rfl
  · rw [List.concat_eq_append, lastOf_append, List.map_append, List.map_singleton,
      List.getLast?_concat]
    rfl

end Rows

variable {list : HandleList α σ} {entries front back : List (Handle × α)} {handle other : Handle}
  {element : α}

theorem Links.next?_middle (links : list.Links (front ++ (handle, element) :: back)) :
    list.next? handle = firstOf back none := by
  rw [next?, links.get?_nodes]
  rfl

theorem Links.previous?_middle (links : list.Links (front ++ (handle, element) :: back)) :
    list.previous? handle = lastOf none front := by
  rw [previous?, links.get?_nodes]
  rfl

private theorem contains_of_bind {pick : Node α → Option Handle}
    (found : (Arena.get? list.nodes handle).bind pick = some other) : list.contains handle := by
  obtain ⟨node, reached, -⟩ := Option.bind_eq_some_iff.mp found
  rw [HandleList.contains, reached]
  rfl

/-- A link leads from an entry to the one that stands directly behind it. -/
theorem Links.next?_eq_some_iff (links : list.Links entries) :
    list.next? handle = some other ↔
      ∃ element behind, [(handle, element), (other, behind)] <:+: entries := by
  constructor
  · intro found
    have present := links.contains_iff.mp (contains_of_bind found)
    obtain ⟨front, element, back, rfl⟩ := exists_entry present
    rw [links.next?_middle] at found
    cases back with
    | nil => cases found
    | cons entry rest =>
      cases found
      exact ⟨element, entry.2, front, rest, by simp⟩
  · rintro ⟨element, behind, front, back, rfl⟩
    rw [List.append_assoc] at links
    exact links.next?_middle

theorem Links.previous?_eq_some_iff (links : list.Links entries) :
    list.previous? other = some handle ↔
      ∃ element behind, [(handle, element), (other, behind)] <:+: entries := by
  constructor
  · intro found
    have present := links.contains_iff.mp (contains_of_bind found)
    obtain ⟨front, behind, back, rfl⟩ := exists_entry present
    rw [links.previous?_middle] at found
    rcases List.eq_nil_or_concat front with rfl | ⟨others, entry, rfl⟩
    · cases found
    · rw [List.concat_eq_append, lastOf_append] at found
      cases found
      exact ⟨entry.2, behind, others, back, by simp⟩
  · rintro ⟨element, behind, front, back, rfl⟩
    rw [List.append_assoc, List.cons_append, List.append_cons] at links
    rw [links.previous?_middle, lastOf_append]
    rfl

/-- From any place of the list on, the links lead by all entries behind it. -/
theorem Links.visits_next? (links : list.Links (front ++ back)) :
    Visits list.next? (firstOf back none) (back.map Prod.fst) := by
  induction back generalizing front with
  | nil => exact .done
  | cons entry rest ih =>
    have behind := ih (List.append_cons front entry rest ▸ links)
    rw [← links.next?_middle] at behind
    exact .step behind

/-- The way back leads by the entries in front of the place, the nearest first. -/
theorem Links.visits_previous? (links : list.Links (front ++ back)) :
    Visits list.previous? (lastOf none front) (front.map Prod.fst).reverse := by
  induction front using List.reverseRecOn generalizing back with
  | nil => exact .done
  | append_singleton others entry ih =>
    rw [List.append_assoc, List.singleton_append] at links
    have before := ih links
    rw [← links.previous?_middle] at before
    rw [lastOf_append, List.map_append, List.map_singleton, List.reverse_concat]
    exact .step before

theorem Links.chained (links : list.Links entries) : list.Chained where
  first_eq_none_iff := by
    simp only [links.first, firstOf_none, List.head?_eq_none_iff, links.contains_iff,
      List.eq_nil_iff_forall_not_mem]
  last_eq_none_iff := by
    simp only [links.last, lastOf_none, List.getLast?_eq_none_iff, links.contains_iff,
      List.eq_nil_iff_forall_not_mem]
  first handle found := by
    rw [links.first] at found
    cases entries with
    | nil => cases found
    | cons entry rest =>
      cases found
      have whole : list.Links ([] ++ entry :: rest) := links
      exact ⟨links.contains_iff.mpr List.mem_cons_self, whole.previous?_middle⟩
  last handle found := by
    rw [links.last] at found
    rcases List.eq_nil_or_concat entries with rfl | ⟨others, entry, rfl⟩
    · cases found
    · rw [List.concat_eq_append, lastOf_append] at found
      rw [List.concat_eq_append] at links
      cases found
      exact ⟨links.contains_iff.mpr (by simp), links.next?_middle⟩
  next?_iff handle other := links.next?_eq_some_iff.trans links.previous?_eq_some_iff.symm
  contains handle other found := by
    have back := links.previous?_eq_some_iff.mpr (links.next?_eq_some_iff.mp found)
    exact ⟨contains_of_bind found, contains_of_bind back⟩
  visits := by
    have onward : list.Links ([] ++ entries) := links
    have backward : list.Links (entries ++ []) := (List.append_nil entries).symm ▸ links
    refine ⟨entries.map Prod.fst, ?_, fun handle => links.contains_iff.symm, ?_, ?_, ?_⟩
    · exact map_fst_nodesOf none none entries ▸ links.nodes.distinct
    · exact links.first ▸ onward.visits_next?
    · rw [links.last, lastOf_none]
    · exact links.last ▸ backward.visits_previous?

variable [LawfulArena σ]

/-- Whatever was done to a list that started empty, its links fit together. -/
theorem chained_of_empty (operations : List (Operation α)) :
    ((empty : HandleList α σ).performAll operations).2.Chained := by
  obtain ⟨sequence, -, represents⟩ := (represents_empty (σ := σ)).performAll operations
  exact represents.links.chained

/-- Here two entries are left, and what stood in front of each was removed. -/
theorem chained_untidy :
    ((empty : HandleList Nat).performAll (untidy.take 9)).2.Chained :=
  chained_of_empty (untidy.take 9)

end Mqtt.HandleList
