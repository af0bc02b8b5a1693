import Mqtt.Disconnect.Basic

/-!
Writing DISCONNECT packets within a limit. Diagnostics are left out where there is no room for them:
user properties are kept in order up to the first that does not fit, and the reason string is kept
if there is room behind those. The size is computed first; writing goes by the size alone, and keeps
the same diagnostics.
-/
namespace Mqtt.Disconnect

/-- The longest start of a list whose sizes add up to at most `budget`. -/
def fitting {α : Type} (size : α → Nat) (budget : Nat) : List α → List α
  | [] => []
  | item :: rest => if size item ≤ budget then item :: fitting size (budget - size item) rest else []

section Fitting

variable {α : Type} {size : α → Nat}

theorem fitting_isPrefix (budget : Nat) (items : List α) : fitting size budget items <+: items := by
  induction items generalizing budget with
  | nil => exact List.prefix_refl _
  | cons item rest ih =>
    unfold fitting
    split
    · exact List.prefix_cons_inj item |>.mpr (ih _)
    · exact List.nil_prefix

theorem totalSize_fitting_le (budget : Nat) (items : List α) :
    totalSize size (fitting size budget items) ≤ budget := by
  induction items generalizing budget with
  | nil => exact Nat.zero_le _
  | cons item rest ih =>
    unfold fitting
    split
    · rename_i fits
      have step := ih (budget - size item)
      rw [totalSize_cons]
      omega
    · exact Nat.zero_le _

/-- Nothing is left out where there is room for everything. -/
theorem fitting_eq_self {budget : Nat} {items : List α} (fits : totalSize size items ≤ budget) :
    fitting size budget items = items := by
  induction items generalizing budget with
  | nil => rfl
  | cons item rest ih =>
    rw [totalSize_cons] at fits
    rw [fitting, if_pos (by omega), ih (by omega)]

end Fitting

/-- The packet with the diagnostics that fit into `budget` bytes. -/
def trim (disconnect : Disconnect) (budget : Nat) : Disconnect :=
  let kept := fitting (fun property => (Property.user property).size) budget disconnect.userProperties
  let left := budget - sizeOf (kept.map Property.user)
  { disconnect with
    userProperties := kept
    reasonString := disconnect.reasonString.filter fun text => (Property.reasonString text).size ≤ left }

def fixedSize (disconnect : Disconnect) : Nat := sizeOf disconnect.fixedProperties

/-- The room for diagnostics, when the reason code and the longest length field are set aside. -/
def budget (disconnect : Disconnect) (limit : Nat) : Nat := limit - (1 + 4 + disconnect.fixedSize)

/-- The size of the properties that are written under a limit. -/
def propertiesSize (disconnect : Disconnect) (limit : Nat) : Nat :=
  sizeOf (disconnect.trim (disconnect.budget limit)).properties

/-- The size that the fixed header announces. -/
def size (disconnect : Disconnect) (limit : Nat) : Nat :=
  let length := disconnect.propertiesSize limit
  1 + VarInt.size length + length

/-- Everything behind the fixed header, for the size it announces. -/
def encoding (disconnect : Disconnect) (size : Nat) : Encoding :=
  let length := VarInt.blockLength (size - 1)
  let kept := disconnect.trim (length - disconnect.fixedSize)
  .uint8 disconnect.reason.code ++ .varInt length ++ .concat (kept.properties.map Property.encoding)

end Mqtt.Disconnect
