import Mqtt.Disconnect.Basic

/-!
Reading DISCONNECT packets. An empty body stands for a normal disconnection, and a body may end
behind its reason code. Nothing may follow the properties.
-/
namespace Mqtt.Disconnect

def reasonReader : Reader WireError ReasonCode :=
  Reader.uint8.mapSome .malformedPacket ReasonCode.ofCode?

def decode (body : Bytes) : Except WireError Disconnect :=
  if body.isEmpty then .ok {}
  else
    match reasonReader.run body with
    | .error error => .error error
    | .ok (reason, used) =>
      let table := body.drop used
      if table.isEmpty then .ok { reason := reason }
      else
        match schema.read.run table with
        | .error error => .error error
        | .ok (properties, length) =>
          if (table.drop length).isEmpty then .ok (ofProperties reason properties)
          else .error .invalidLength

end Mqtt.Disconnect
