import Mqtt.Wire.VarInt

/-!
What an encoder writes: bytes, and the error at which it stopped if it did. Encodings are joined in
order; nothing is written behind an error, while everything before it stays.
-/
namespace Mqtt

structure Encoding where
  bytes : Bytes
  error : Option WireError
deriving DecidableEq, Repr

namespace Encoding

def ofBytes (bytes : Bytes) : Encoding := ⟨bytes, none⟩

def empty : Encoding := ofBytes []

/-- Stops before anything is written. -/
def fail (error : WireError) : Encoding := ⟨[], some error⟩

protected def append (first second : Encoding) : Encoding :=
  match first.error with
  | none => ⟨first.bytes ++ second.bytes, second.error⟩
  | some _ => first

instance : Append Encoding := ⟨Encoding.append⟩

def concat (encodings : List Encoding) : Encoding := encodings.foldr (· ++ ·) empty

def result (encoding : Encoding) : Except WireError Unit :=
  match encoding.error with
  | none => .ok ()
  | some error => .error error

theorem result_eq_ok_iff {encoding : Encoding} : encoding.result = .ok () ↔ encoding.error = none := by
  unfold result
  split <;> simp_all

theorem result_eq_error_iff {encoding : Encoding} {error : WireError} :
    encoding.result = .error error ↔ encoding.error = some error := by
  unfold result
  split <;> simp_all

@[simp] theorem bytes_ofBytes (bytes : Bytes) : (ofBytes bytes).bytes = bytes := rfl

@[simp] theorem error_ofBytes (bytes : Bytes) : (ofBytes bytes).error = none := rfl

@[simp] theorem bytes_fail (error : WireError) : (fail error).bytes = [] := rfl

@[simp] theorem error_append (first second : Encoding) :
    (first ++ second).error = (first.error <|> second.error) := by
  cases first with
  | mk bytes error => cases error <;> rfl

theorem error_append_eq_none_iff {first second : Encoding} :
    (first ++ second).error = none ↔ first.error = none ∧ second.error = none := by
  cases ended : first.error <;> simp [ended]

theorem bytes_append {first : Encoding} (complete : first.error = none) (second : Encoding) :
    (first ++ second).bytes = first.bytes ++ second.bytes := by
  cases first with
  | mk bytes error => cases complete; rfl

theorem append_of_error {first : Encoding} {error : WireError} (stopped : first.error = some error)
    (second : Encoding) : first ++ second = first := by
  cases first with
  | mk bytes error => cases stopped; rfl

@[simp] theorem append_empty (encoding : Encoding) : encoding ++ empty = encoding := by
  cases encoding with
  | mk bytes error =>
    cases error with
    | none => show Encoding.mk (bytes ++ []) none = _; rw [List.append_nil]
    | some error => rfl

theorem append_assoc (first second third : Encoding) :
    first ++ second ++ third = first ++ (second ++ third) := by
  cases first with
  | mk bytes error =>
    cases error with
    | some error => rfl
    | none =>
      cases second with
      | mk middle fault =>
        cases fault with
        | some fault => rfl
        | none =>
          show Encoding.mk (bytes ++ middle ++ third.bytes) third.error =
            Encoding.mk (bytes ++ (middle ++ third.bytes)) third.error
          rw [List.append_assoc]

@[simp] theorem concat_nil : concat [] = empty := rfl

@[simp] theorem concat_cons (encoding : Encoding) (rest : List Encoding) :
    concat (encoding :: rest) = encoding ++ concat rest := rfl

end Encoding
end Mqtt
