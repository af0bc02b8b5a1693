/-!
Sizes of lists whose items have sizes of their own.
-/
namespace Mqtt

def totalSize {α : Type} (size : α → Nat) (items : List α) : Nat :=
  items.foldr (fun item total => size item + total) 0

@[simp] theorem totalSize_nil {α : Type} (size : α → Nat) : totalSize size [] = 0 := rfl

@[simp] theorem totalSize_cons {α : Type} (size : α → Nat) (item : α) (rest : List α) :
    totalSize size (item :: rest) = size item + totalSize size rest := rfl

@[simp] theorem totalSize_append {α : Type} (size : α → Nat) (first second : List α) :
    totalSize size (first ++ second) = totalSize size first + totalSize size second := by
  induction first with
  | nil => simp
  | cons item rest ih => simp [ih, Nat.add_assoc]

theorem totalSize_eq_of_perm {α : Type} {size : α → Nat} {first second : List α}
    (perm : first.Perm second) : totalSize size first = totalSize size second := by
  induction perm with
  | nil => rfl
  | cons item _ ih => rw [totalSize_cons, totalSize_cons, ih]
  | swap item other rest =>
    simp only [totalSize_cons]
    omega
  | trans _ _ front back => exact front.trans back

end Mqtt
