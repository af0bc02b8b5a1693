import Mqtt.Enumeration

/-!
Quality of service: how hard the two ends try to deliver a message.
-/
namespace Mqtt

inductive QoS
  /-- No answer is sent and nothing is sent again. -/
  | atMostOnce
  /-- The receiver acknowledges the packet identifier. -/
  | atLeastOnce
  /-- Neither loss nor duplication is acceptable. -/
  | exactlyOnce
deriving DecidableEq, Repr

namespace QoS

def all : List QoS :=
  [.atMostOnce, .atLeastOnce, .exactlyOnce]

def code : QoS → UInt8
  | atMostOnce => 0
  | atLeastOnce => 1
  | exactlyOnce => 2

def name : QoS → String
  | atMostOnce => "AtMostOnce"
  | atLeastOnce => "AtLeastOnce"
  | exactlyOnce => "ExactlyOnce"

def ofCode? (byte : UInt8) : Option QoS := all.find? fun qos => qos.code == byte

theorem mem_all (qos : QoS) : qos ∈ all := by cases qos <;> decide

theorem ofCode?_eq_some_iff {byte : UInt8} {qos : QoS} :
    ofCode? byte = some qos ↔ qos.code = byte :=
  Enumeration.find?_eq_some_iff mem_all (by decide)

end QoS
end Mqtt
