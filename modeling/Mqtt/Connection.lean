import Mqtt.Codec
import Mqtt.Connection.Event
import Mqtt.Disconnect.Decode
import Mqtt.Publish.Decode

/-!
The client's end of a connection. Every violation found while decoding is answered by one DISCONNECT
with the reason code that fits; then the transport is closed and the topic aliases are forgotten. A
connection is a value: each operation gives the next one and lists what happened outside.
-/
namespace Mqtt

structure Connection where
  codec : Codec
  context : Context
  closed : Bool := false
deriving DecidableEq

namespace Connection

/-- The answer of an operation, the connection to go on with, and the events in their order. -/
structure Outcome (α : Type) where
  value : α
  connection : Connection
  events : List Event := []

def Outcome.map {α β : Type} (convert : α → β) (outcome : Outcome α) : Outcome β :=
  { outcome with value := convert outcome.value }

/-- The same outcome with earlier events in front. -/
def Outcome.after {α : Type} (earlier : List Event) (outcome : Outcome α) : Outcome α :=
  { outcome with events := earlier ++ outcome.events }

def ofConfig (config : Config) : Connection where
  codec := { maxFrameSize := config.maxFrameSize, maxPacketSize := config.maxPacketSize }
  context := Context.ofConfig config

/-- Registers a topic for an alias of the peer, where the table has a slot for it. -/
def setAlias (connection : Connection) (name : TopicAlias) (topic : Topic) : Connection :=
  { connection with context := connection.context.setAlias name topic }

def shutdown (connection : Connection) : Outcome Unit where
  value := ()
  connection := { connection with context := connection.context.reset, closed := true }
  events := [.close]

/-- A DISCONNECT for the transport, or the notice that there is none. -/
def farewell (codec : Codec) (reason : ReasonCode) (text : String) : Event :=
  let packet := Packet.disconnect (Disconnect.withReason reason text)
  match codec.encode packet [] with
  | (.ok (), frame) => .send frame
  | (.error error, _) => .notice (.disconnectNotEncoded error)

/-- Tells the peer why and closes. A connection that is closed already only takes notice. -/
def disconnect (connection : Connection) (reason : ReasonCode) (text : String) : Outcome Unit :=
  if connection.closed then ⟨(), connection, [.notice (.alreadyClosed reason)]⟩
  else
    connection.shutdown.after
      [.notice (.disconnecting reason text), farewell connection.codec reason text]

/-- Decodes the frame of a PUBLISH, also on a closed connection. -/
def decodePublish (connection : Connection) (flags : UInt8) (frame : Bytes) :
    Outcome (Option Publish) :=
  match Publish.decode flags frame connection.context with
  | (.ok publish, context) => ⟨some publish, { connection with context := context }, []⟩
  | (.error violation, context) =>
    ({ connection with context := context }.disconnect violation.reason violation.detail).map
      fun _ => none

def decodeDisconnect (connection : Connection) (body : Bytes) : Outcome (Option Disconnect) :=
  match Disconnect.decode body with
  | .ok packet =>
    (connection.shutdown.after [.notice (.peerDisconnected packet.reason)]).map fun _ => some packet
  | .error error =>
    ((connection.disconnect .malformedPacket "malformed DISCONNECT").after
      [.notice (.malformedDisconnect error)]).map fun _ => none

def decodeFrame (connection : Connection) (frame : Frame) : Outcome (Option Packet) :=
  if frame.header.packetType = PacketType.publish then
    (connection.decodePublish frame.header.flags frame.body).map (Option.map Packet.publish)
  else if frame.header.packetType = PacketType.disconnect then
    (connection.decodeDisconnect frame.body).map (Option.map Packet.disconnect)
  else ⟨some (.other frame.header frame.body), connection, []⟩

/-- The violation that a framing error amounts to. -/
def framingViolation : WireError → ReasonCode × String
  | .maxSizeExceeded => (.packetTooLarge, "packet too large")
  | _ => (.malformedPacket, "malformed remaining length")

/-- Decodes the next packet of a receive buffer, and gives the packet with the bytes behind it. No
packet is given when no frame is complete, after a violation, and on a closed connection. -/
def decode (connection : Connection) (buffer : Bytes) : Outcome (Option Packet × Bytes) :=
  if connection.closed then ⟨(none, buffer), connection, []⟩
  else
    match connection.codec.decode buffer with
    | .error error =>
      let (reason, text) := framingViolation error
      (connection.disconnect reason text).map fun _ => (none, buffer)
    | .ok progress =>
      let next := { connection with codec := progress.codec }
      match progress.frame with
      | none => ⟨(none, progress.buffer), next, []⟩
      | some frame =>
        ((next.decodeFrame frame).after [.notice (.frameDecoded frame.header)]).map
          fun packet => (packet, progress.buffer)

end Connection
end Mqtt
