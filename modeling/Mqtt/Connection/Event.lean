import Mqtt.FixedHeader
import Mqtt.ReasonCode
import Mqtt.WireError

/-!
What a connection does to the outside: frames for the transport, the closing of the transport, and
notices for a log.
-/
namespace Mqtt

inductive Notice
  | frameDecoded (header : FixedHeader)
  | peerDisconnected (reason : ReasonCode)
  | malformedDisconnect (error : WireError)
  | disconnecting (reason : ReasonCode) (text : String)
  | disconnectNotEncoded (error : WireError)
  | alreadyClosed (reason : ReasonCode)
deriving DecidableEq, Repr

namespace Notice

/-- Four binary digits at least. -/
def binaryDigits (number : Nat) : String :=
  let digits := Nat.toDigits 2 number
  String.ofList (List.replicate (4 - digits.length) '0' ++ digits)

def level : Notice → String
  | frameDecoded _ => "TRACE"
  | peerDisconnected _ => "DEBUG"
  | malformedDisconnect _ => "TRACE"
  | disconnecting _ _ => "DEBUG"
  | disconnectNotEncoded _ => "ERROR"
  | alreadyClosed _ => "WARN"

def text : Notice → String
  | frameDecoded header =>
    "decoded frame: type 0b" ++ binaryDigits header.packetType.toNat ++ ", " ++
      toString header.remainingLength ++ " bytes"
  | peerDisconnected reason => "peer disconnected: " ++ reason.name
  | malformedDisconnect error => "malformed DISCONNECT: " ++ error.message
  | disconnecting reason text => "disconnecting: " ++ reason.name ++ ", " ++ text
  | disconnectNotEncoded error => "cannot encode DISCONNECT: " ++ error.message
  | alreadyClosed reason => "connection is already closed, dropping " ++ reason.name

def line (notice : Notice) : String := notice.level ++ ": " ++ notice.text

end Notice

inductive Event
  | send (frame : Bytes)
  | close
  | notice (notice : Notice)
deriving DecidableEq, Repr

end Mqtt
