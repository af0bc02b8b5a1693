import Mqtt.Connection
import Mqtt.HandleList.Cursor
import Mqtt.Proofs.HandleList.Sequence
import Mqtt.Proofs.Wire.VarInt
import Mqtt.Proofs.PropertyTable
import Mqtt.Proofs.Wire.Field
import Mqtt.Proofs.Publish.Properties
import Mqtt.Proofs.Publish.Grammar
import Mqtt.Proofs.Wire.Writing
import Mqtt.Proofs.Publish.Writing
import Mqtt.Proofs.Publish.Refusal
import Mqtt.Proofs.Publish.TableLength
import Mqtt.Proofs.Publish.Payload
import Mqtt.Proofs.Disconnect.Grammar
import Mqtt.Proofs.Disconnect.Writing
import Mqtt.Proofs.Packet
import Mqtt.Proofs.Framing
import Mqtt.Proofs.Framing.Outcome
import Mqtt.Proofs.Framing.Overlong
import Mqtt.Proofs.Framing.Interruption
import Mqtt.Proofs.Publish.Canonical
import Mqtt.Proofs.Framing.Conservation
import Mqtt.Proofs.TopicAlias.History
import Mqtt.Proofs.Connection.Step
import Mqtt.Proofs.Connection.RoundTrip
import Mqtt.Proofs.Framing.Sequence
import Mqtt.Proofs.Connection.Chunks
import Mqtt.Proofs.Connection.LifeCycle
import Mqtt.Proofs.Disconnect.Delivery
import Mqtt.Proofs.Connection.Signalling
import Mqtt.Proofs.Connection.Aliases
import Mqtt.Proofs.Connection.PacketLimit
import Mqtt.Proofs.Connection.Afterlife
import Mqtt.Proofs.Publish.Validation
import Mqtt.Proofs.Packet.PropertyOrder
import Mqtt.Proofs.Wire.VarInt.Arrival
import Mqtt.Proofs.Topic
import Mqtt.Proofs.HandleList.Iteration
import Mqtt.Proofs.HandleList.Neighbours
import Mqtt.Proofs.PropertyTable.Rounds
import Mqtt.Proofs.Disconnect.Passes
