import Mqtt.Proofs.HandleList.Sequence

/-!
Cursors over handle lists, call by call. The count of a cursor comes from the size of the arena and its
way from the links, and in every list that operations lead to the two agree at each call, also behind
the last element.
-/
namespace Mqtt.HandleList

variable {α : Type} {σ : Type → Type} [Arena σ] {front back : List (Handle × α)} {handle : Handle}
  {element : α}

/-- What a number of calls answer, and the cursor behind them. A call that finds no element is no
reason not to call again. -/
def Cursor.calls (cursor : Cursor α σ) : Nat → List (Option α) × Cursor α σ
  | 0 => ([], cursor)
  | count + 1 =>
    let (answer, following) := cursor.advance
    let (answers, behind) := following.calls count
    (answer :: answers, behind)

theorem Cursor.calls_succ (cursor : Cursor α σ) (count : Nat) :
    cursor.calls (count + 1) = (cursor.advance.1 :: (cursor.advance.2.calls count).1,
      (cursor.advance.2.calls count).2) := rfl

/-- The cursor is between two rows of entries and counts those of the second. -/
structure Cursor.Stands (cursor : Cursor α σ) (front back : List (Handle × α)) : Prop where
  links : cursor.list.Links (front ++ back)
  next : cursor.next = firstOf back none
  remaining : cursor.remaining = back.length

namespace Cursor.Stands

variable {cursor : Cursor α σ}

theorem advance_nil (stands : cursor.Stands front []) : cursor.advance = (none, cursor) := by
  rw [Cursor.advance, stands.next]
  rfl

/-- A call takes one entry from the second row to the first. -/
theorem advance_cons (stands : cursor.Stands front ((handle, element) :: back)) :
    cursor.advance.1 = some element ∧
      cursor.advance.2.Stands (front ++ [(handle, element)]) back := by
  have found := stands.links.get?_nodes
  have links := stands.links
  rw [List.append_cons] at links
  simp only [Cursor.advance, stands.next, firstOf_cons, Option.bind_some, found]
  refine ⟨trivial, links, rfl, ?_⟩
  rw [stands.remaining, List.length_cons, Nat.add_sub_cancel]

/-- Calls give the elements of the second row, and then none. -/
theorem calls (stands : cursor.Stands front back) (count : Nat) :
    (cursor.calls count).1 =
        ((back.map Prod.snd).take count).map some ++ List.replicate (count - back.length) none ∧
      (cursor.calls count).2.Stands (front ++ back.take count) (back.drop count) := by
  induction count generalizing cursor front back with
  | zero =>
    refine ⟨by simp [Cursor.calls], ?_⟩
    rwa [List.take_zero, List.append_nil, List.drop_zero]
  | succ count ih =>
    cases back with
    | nil =>
      obtain ⟨answers, behind⟩ := ih stands
      rw [List.take_nil, List.drop_nil] at behind
      rw [Cursor.calls_succ, stands.advance_nil, answers, List.take_nil, List.drop_nil]
      refine ⟨?_, behind⟩
      simp [List.replicate_succ]
    | cons entry back =>
      obtain ⟨handle, element⟩ := entry
      obtain ⟨answer, following⟩ := stands.advance_cons
      obtain ⟨answers, behind⟩ := ih following
      rw [List.append_assoc, List.singleton_append] at behind
      rw [Cursor.calls_succ, answer, answers]
      refine ⟨?_, behind⟩
      simp

end Cursor.Stands

variable [LawfulArena σ]

theorem Links.stands {list : HandleList α σ} {entries : List (Handle × α)}
    (links : list.Links entries) : list.cursor.Stands [] entries :=
  ⟨links, links.first, links.size⟩

/-- What a number of calls to a fresh cursor come to, if the list has these elements. -/
structure Iterates (list : HandleList α σ) (elements : List α) (count : Nat) : Prop where
  /-- The elements in their order, one a call, and then nothing. -/
  answers : (list.cursor.calls count).1 =
    (elements.take count).map some ++ List.replicate (count - elements.length) none
  sizeHint : (list.cursor.calls count).2.sizeHint =
    (list.size - min count list.size, some (list.size - min count list.size))
  /-- The next call counts down only from more than zero. -/
  counted : (list.cursor.calls count).2.advance.1.isSome → 0 < (list.cursor.calls count).2.remaining

theorem Links.iterates {list : HandleList α σ} {entries : List (Handle × α)}
    (links : list.Links entries) (count : Nat) : list.Iterates (entries.map Prod.snd) count := by
  obtain ⟨answers, behind⟩ := links.stands.calls count
  refine ⟨?_, ?_, fun present => ?_⟩
  · rw [answers, List.length_map]
  · have left : entries.length - count = list.size - min count list.size := by
      rw [links.size]
      omega
    rw [Cursor.sizeHint, behind.remaining, List.length_drop, left]
  · rw [behind.remaining]
    generalize entries.drop count = rest at behind ⊢
    cases rest with
    | nil =>
      rw [behind.advance_nil] at present
      cases present
    | cons entry rest => exact Nat.succ_pos _

/-- Whatever was done to a list, a cursor gives the elements of the sequence to which the same was done
and answers the same, with an exact count of those to come. -/
theorem iterates_of_empty (operations : List (Operation α)) :
    let (answers, list) := (empty : HandleList α σ).performAll operations
    ∃ sequence : Sequence α, Sequence.Run {} operations answers sequence ∧
      list.size = sequence.entries.length ∧
      ∀ count, list.Iterates (sequence.entries.map Prod.snd) count := by
  obtain ⟨sequence, run, represents⟩ := (represents_empty (σ := σ)).performAll operations
  exact ⟨sequence, run, represents.links.size, represents.links.iterates⟩

theorem iterates_untidy :
    let (answers, list) := (empty : HandleList Nat).performAll untidy
    ∃ sequence : Sequence Nat, Sequence.Run {} untidy answers sequence ∧
      list.size = sequence.entries.length ∧
      ∀ count, list.Iterates (sequence.entries.map Prod.snd) count :=
  iterates_of_empty untidy

end Mqtt.HandleList
