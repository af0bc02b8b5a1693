import Mqtt.Proofs.HandleList.Walk

/-!
Handle lists as sequences. Whatever is done to a list, in any order and with any handles, it answers
as a sequence of entries in the order of their insertion does, and shows the same entries at any time.
The arena may choose its handles as it likes, as long as it chooses none twice.
-/
namespace Mqtt.HandleList

/-- What the owner of a list may do to it. -/
inductive Operation (α : Type)
  | add (element : α)
  | remove (handle : Handle)
  | get (handle : Handle)
  | update (handle : Handle) (change : α → α)
  | contains (handle : Handle)
  | clear

inductive Answer (α : Type)
  | handle (handle : Handle)
  | element (element : Option α)
  | present (present : Bool)
  | done

/-- Entries in the order of their insertion, and all handles that were given out so far. -/
structure Sequence (α : Type) where
  entries : List (Handle × α) := []
  issued : List Handle := []

/-- What a sequence does and answers. A handle that stands for no entry changes nothing. -/
inductive Sequence.Step {α : Type} : Sequence α → Operation α → Answer α → Sequence α → Prop
  | added {entries : List (Handle × α)} {issued : List Handle} {element : α} {handle : Handle}
      (valid : handle ≠ .null) (new : handle ∉ issued) :
      Step ⟨entries, issued⟩ (.add element) (.handle handle)
        ⟨entries ++ [(handle, element)], handle :: issued⟩
  | removed {front back : List (Handle × α)} {issued : List Handle} {handle : Handle} {element : α} :
      Step ⟨front ++ (handle, element) :: back, issued⟩ (.remove handle) (.element (some element))
        ⟨front ++ back, issued⟩
  | notRemoved {sequence : Sequence α} {handle : Handle}
      (absent : handle ∉ sequence.entries.map Prod.fst) :
      Step sequence (.remove handle) (.element none) sequence
  | got {sequence : Sequence α} {handle : Handle} {element : α}
      (present : (handle, element) ∈ sequence.entries) :
      Step sequence (.get handle) (.element (some element)) sequence
  | notGot {sequence : Sequence α} {handle : Handle}
      (absent : handle ∉ sequence.entries.map Prod.fst) :
      Step sequence (.get handle) (.element none) sequence
  | updated {front back : List (Handle × α)} {issued : List Handle} {handle : Handle} {element : α}
      {change : α → α} :
      Step ⟨front ++ (handle, element) :: back, issued⟩ (.update handle change)
        (.element (some element)) ⟨front ++ (handle, change element) :: back, issued⟩
  | notUpdated {sequence : Sequence α} {handle : Handle} {change : α → α}
      (absent : handle ∉ sequence.entries.map Prod.fst) :
      Step sequence (.update handle change) (.element none) sequence
  | found {sequence : Sequence α} {handle : Handle} :
      Step sequence (.contains handle)
        (.present (decide (handle ∈ sequence.entries.map Prod.fst))) sequence
  | cleared {sequence : Sequence α} : Step sequence .clear .done ⟨[], sequence.issued⟩

/-- What a sequence does and answers through some operations. -/
inductive Sequence.Run {α : Type} :
    Sequence α → List (Operation α) → List (Answer α) → Sequence α → Prop
  | done {sequence : Sequence α} : Run sequence [] [] sequence
  | step {sequence next final : Sequence α} {operation : Operation α} {answer : Answer α}
      {rest : List (Operation α)} {answers : List (Answer α)}
      (first : sequence.Step operation answer next) (behind : Run next rest answers final) :
      Run sequence (operation :: rest) (answer :: answers) final

variable {α : Type} {σ : Type → Type} [Arena σ]

def perform (list : HandleList α σ) : Operation α → Answer α × HandleList α σ
  | .add element => (.handle (list.add element).1, (list.add element).2)
  | .remove handle => (.element (list.remove handle).1, (list.remove handle).2)
  | .get handle => (.element (list.get? handle), list)
  | .update handle change => (.element (list.get? handle), list.modify handle change)
  | .contains handle => (.present (list.contains handle), list)
  | .clear => (.done, list.clear)

/-- The answers to some operations, and the list behind them. -/
def performAll (list : HandleList α σ) : List (Operation α) → List (Answer α) × HandleList α σ
  | [] => ([], list)
  | operation :: rest =>
    let (answer, next) := list.perform operation
    let (answers, final) := next.performAll rest
    (answer :: answers, final)

/-- Through some operations the list stays with a sequence: it shows the entries of the sequence at
any time, and gives the answers of the sequence. -/
def KeepsTo (list : HandleList α σ) (sequence : Sequence α) : List (Operation α) → Prop
  | [] => list.Shows sequence.entries
  | operation :: rest =>
    list.Shows sequence.entries ∧
      ∃ next, sequence.Step operation (list.perform operation).1 next ∧
        (list.perform operation).2.KeepsTo next rest

variable [LawfulArena σ] {list : HandleList α σ} {sequence : Sequence α}

/-- The list has the entries of the sequence, and its arena has given out the same handles. -/
structure Represents (list : HandleList α σ) (sequence : Sequence α) : Prop where
  links : list.Links sequence.entries
  issued : ∀ handle, LawfulArena.Issued list.nodes handle ↔ handle ∈ sequence.issued

theorem issued_linkNext (list : HandleList α σ) (previous next : Option Handle) (handle : Handle) :
    LawfulArena.Issued (list.linkNext previous next).nodes handle ↔
      LawfulArena.Issued list.nodes handle := by
  unfold linkNext
  split
  · exact LawfulArena.issued_modify _ _ _ _
  · rfl

theorem issued_linkPrevious (list : HandleList α σ) (next previous : Option Handle)
    (handle : Handle) :
    LawfulArena.Issued (list.linkPrevious next previous).nodes handle ↔
      LawfulArena.Issued list.nodes handle := by
  unfold linkPrevious
  split
  · exact LawfulArena.issued_modify _ _ _ _
  · rfl

theorem issued_add (list : HandleList α σ) (element : α) (handle : Handle) :
    LawfulArena.Issued (list.add element).2.nodes handle ↔
      handle = (list.add element).1 ∨ LawfulArena.Issued list.nodes handle :=
  (issued_linkNext _ _ _ handle).trans (LawfulArena.issued_insert _ _ handle)

theorem issued_remove (list : HandleList α σ) (removed handle : Handle) :
    LawfulArena.Issued (list.remove removed).2.nodes handle ↔
      LawfulArena.Issued list.nodes handle := by
  have kept := LawfulArena.issued_remove list.nodes removed handle
  unfold remove
  split
  · rename_i same
    rwa [same] at kept
  · rename_i same
    rw [same] at kept
    rw [issued_linkPrevious, issued_linkNext, kept]

/-- A handle among some entries stands for one of them. -/
theorem exists_entry {entries : List (Handle × α)} {handle : Handle}
    (present : handle ∈ entries.map Prod.fst) :
    ∃ front element back, entries = front ++ (handle, element) :: back := by
  obtain ⟨⟨_, element⟩, member, rfl⟩ := List.mem_map.mp present
  obtain ⟨front, back, parts⟩ := List.append_of_mem member
  exact ⟨front, element, back, parts⟩

theorem represents_empty : (empty : HandleList α σ).Represents {} where
  links := links_empty
  issued handle := by
    constructor
    · intro issued
      exact absurd issued (LawfulArena.not_issued_empty handle)
    · nofun

theorem Represents.add (represents : list.Represents sequence) (element : α) :
    ∃ next, sequence.Step (.add element) (.handle (list.add element).1) next ∧
      (list.add element).2.Represents next := by
  have links := represents.links.add element
  have valid : (list.add element).1 ≠ .null := by
    intro null
    have reached := links.get?_nodes
    rw [null, LawfulArena.get?_null] at reached
    cases reached
  have new : (list.add element).1 ∉ sequence.issued := fun old =>
    LawfulArena.not_issued_insert list.nodes _ ((represents.issued _).mpr old)
  refine ⟨_, .added valid new, links, fun handle => ?_⟩
  rw [issued_add, represents.issued, List.mem_cons]

theorem Represents.remove (represents : list.Represents sequence) (handle : Handle) :
    ∃ next, sequence.Step (.remove handle) (.element (list.remove handle).1) next ∧
      (list.remove handle).2.Represents next := by
  have issued (other : Handle) := (issued_remove list handle other).trans (represents.issued other)
  obtain ⟨entries, given⟩ := sequence
  by_cases present : handle ∈ entries.map Prod.fst
  · obtain ⟨front, element, back, rfl⟩ := exists_entry present
    obtain ⟨answer, links⟩ := represents.links.remove
    rw [answer]
    exact ⟨_, .removed, links, issued⟩
  · obtain ⟨answer, links⟩ := represents.links.remove_absent present
    rw [answer]
    exact ⟨_, .notRemoved present, links, issued⟩

theorem Represents.get (represents : list.Represents sequence) (handle : Handle) :
    sequence.Step (.get handle) (.element (list.get? handle)) sequence := by
  cases answer : list.get? handle with
  | some element => exact .got (represents.links.get?_eq_some_iff.mp answer)
  | none => exact .notGot (represents.links.get?_eq_none_iff.mp answer)

theorem Represents.update (represents : list.Represents sequence) (handle : Handle)
    (change : α → α) :
    ∃ next, sequence.Step (.update handle change) (.element (list.get? handle)) next ∧
      (list.modify handle change).Represents next := by
  have issued (other : Handle) : LawfulArena.Issued (list.modify handle change).nodes other ↔
      other ∈ sequence.issued :=
    (LawfulArena.issued_modify list.nodes handle _ other).trans (represents.issued other)
  obtain ⟨entries, given⟩ := sequence
  by_cases present : handle ∈ entries.map Prod.fst
  · obtain ⟨front, element, back, rfl⟩ := exists_entry present
    have answer : list.get? handle = some element :=
      represents.links.get?_eq_some_iff.mpr (List.mem_append_right front List.mem_cons_self)
    rw [answer]
    exact ⟨_, .updated, represents.links.modify change, issued⟩
  · rw [represents.links.get?_eq_none_iff.mpr present]
    exact ⟨_, .notUpdated present, represents.links.modify_absent present change, issued⟩

theorem Represents.contains (represents : list.Represents sequence) (handle : Handle) :
    sequence.Step (.contains handle) (.present (list.contains handle)) sequence := by
  have answer : list.contains handle = decide (handle ∈ sequence.entries.map Prod.fst) := by
    rw [Bool.eq_iff_iff, decide_eq_true_iff]
    exact represents.links.contains_iff
  rw [answer]
  exact .found

theorem Represents.clear (represents : list.Represents sequence) :
    list.clear.Represents ⟨[], sequence.issued⟩ where
  links := links_clear list
  issued handle := (LawfulArena.issued_clear list.nodes handle).trans (represents.issued handle)

/-- One operation, on the list and on the sequence that it represents. -/
theorem Represents.perform (represents : list.Represents sequence) (operation : Operation α) :
    ∃ next, sequence.Step operation (list.perform operation).1 next ∧
      (list.perform operation).2.Represents next := by
  cases operation with
  | add element => exact represents.add element
  | remove handle => exact represents.remove handle
  | get handle => exact ⟨sequence, represents.get handle, represents⟩
  | update handle change => exact represents.update handle change
  | contains handle => exact ⟨sequence, represents.contains handle, represents⟩
  | clear => exact ⟨_, .cleared, represents.clear⟩

/-- Every list that operations lead to has a sequence that the same operations lead to. -/
theorem Represents.performAll (represents : list.Represents sequence)
    (operations : List (Operation α)) :
    ∃ final, sequence.Run operations (list.performAll operations).1 final ∧
      (list.performAll operations).2.Represents final := by
  induction operations generalizing list sequence with
  | nil => exact ⟨sequence, .done, represents⟩
  | cons operation rest ih =>
    obtain ⟨next, first, following⟩ := represents.perform operation
    obtain ⟨final, behind, reached⟩ := ih following
    exact ⟨final, .step first behind, reached⟩

theorem Represents.keepsTo (represents : list.Represents sequence)
    (operations : List (Operation α)) : list.KeepsTo sequence operations := by
  induction operations generalizing list sequence with
  | nil => exact represents.links.shows
  | cons operation rest ih =>
    obtain ⟨next, step, behind⟩ := represents.perform operation
    exact ⟨represents.links.shows, next, step, ih behind⟩

/-- A list that starts empty stays with the sequence that starts empty. -/
theorem keepsTo_of_empty (operations : List (Operation α)) :
    (empty : HandleList α σ).KeepsTo {} operations :=
  represents_empty.keepsTo operations

/-- Entries are removed at both ends and asked for again, and handles of removed entries and of none
are used. -/
def untidy : List (Operation Nat) :=
  [.add 1, .add 2, .add 3, .remove ⟨1⟩, .remove ⟨1⟩, .update ⟨2⟩ (· + 10), .add 4, .remove ⟨3⟩,
    .get .null, .contains ⟨3⟩, .clear, .get ⟨4⟩, .add 5, .remove ⟨4⟩]

theorem keepsTo_untidy : (empty : HandleList Nat).KeepsTo {} untidy := keepsTo_of_empty untidy

end Mqtt.HandleList
