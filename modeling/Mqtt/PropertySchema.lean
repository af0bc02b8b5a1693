import Mqtt.PropertyTable
import Mqtt.Size

/-!
What a packet type admits in its property table, and the list of properties that a table holds. A
property that may stand once is refused the second time before its value is looked at.
-/
namespace Mqtt

/-- How one packet type reads its properties `α`. -/
structure PropertySchema (ε α : Type) where
  faults : PropertyTable.Faults ε
  /-- The identifier is unknown, or its property belongs to other packet types. -/
  unexpected : ε
  repeated : ε
  id : α → PropertyId
  value? : PropertyId → Option (Reader ε α)

namespace PropertySchema

variable {ε α : Type}

/-- The latest property comes first in `behind`. -/
def handler (schema : PropertySchema ε α) (behind : List α) (found : Option PropertyId) :
    Reader ε (List α) :=
  match found with
  | none => .fail schema.unexpected
  | some id =>
    match schema.value? id with
    | none => .fail schema.unexpected
    | some value =>
      if !id.mayRepeat && behind.any (fun property => schema.id property == id) then
        .fail schema.repeated
      else (fun property => property :: behind) <$> value

/-- The properties of a table in the order of the packet. -/
def read (schema : PropertySchema ε α) : Reader ε (List α) :=
  List.reverse <$> PropertyTable.read schema.faults schema.handler []

/-! A record lists its optional properties one behind the other; picking finds each where it is. -/

variable {β : Type}

theorem findSome?_toList (choice : Option α) (pick : α → Option β) :
    choice.toList.findSome? pick = choice.bind pick := by
  cases choice <;> simp

theorem filterMap_toList (choice : Option α) (pick : α → Option β) :
    choice.toList.filterMap pick = (choice.bind pick).toList := by
  cases choice with
  | none => rfl
  | some value => cases found : pick value <;> simp [found]

end PropertySchema
end Mqtt
