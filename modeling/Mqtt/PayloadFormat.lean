import Mqtt.Enumeration

/-!
What a sender says about the form of a payload.
-/
namespace Mqtt

inductive PayloadFormat
  | unspecified
  | utf8
deriving DecidableEq, Repr

namespace PayloadFormat

def all : List PayloadFormat :=
  [.unspecified, .utf8]

def code : PayloadFormat → UInt8
  | unspecified => 0
  | utf8 => 1

def name : PayloadFormat → String
  | unspecified => "Unspecified"
  | utf8 => "Utf8"

def ofCode? (byte : UInt8) : Option PayloadFormat := all.find? fun format => format.code == byte

theorem mem_all (format : PayloadFormat) : format ∈ all := by cases format <;> decide

theorem ofCode?_eq_some_iff {byte : UInt8} {format : PayloadFormat} :
    ofCode? byte = some format ↔ format.code = byte :=
  Enumeration.find?_eq_some_iff mem_all (by decide)

end PayloadFormat
end Mqtt
