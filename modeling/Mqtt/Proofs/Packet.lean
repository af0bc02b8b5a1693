import Mqtt.Packet
import Mqtt.Proofs.Disconnect.Writing
import Mqtt.Proofs.Publish.Writing

/-!
Packets as they are written: the first byte that the type and the flags of a packet ask for, and
content of the size that its header announces. How the content is spelled is not covered.
-/
namespace Mqtt.Packet

/-- The first byte of a packet: a PUBLISH has its flags behind the type, a DISCONNECT none, and a
packet that is passed on keeps its own. -/
inductive Prescribes : Packet → UInt8 → Prop
  | publish {packet : Publish} {byte : UInt8} (type : byte.toNat / 16 = 3)
      (dup : byte.toNat.testBit 3 = packet.dup) (qos : byte.toNat / 2 % 4 = packet.qos.code.toNat)
      (retain : byte.toNat.testBit 0 = packet.retain) : Prescribes (.publish packet) byte
  | disconnect {packet : Disconnect} : Prescribes (.disconnect packet) 0xE0
  | other {header : FixedHeader} {content : Bytes} :
      Prescribes (.other header content) header.firstByte

private theorem bits_of_flags (flags : Publish.Flags) :
    let byte := ((PacketType.publish <<< 4) ||| flags.encode).toNat
    byte / 16 = 3 ∧ byte.testBit 3 = flags.dup ∧ byte / 2 % 4 = flags.qos.code.toNat ∧
      byte.testBit 0 = flags.retain := by
  obtain ⟨dup, qos, retain⟩ := flags
  cases dup <;> cases qos <;> cases retain <;> decide

theorem prescribes_firstByte (packet : Packet) : packet.Prescribes packet.firstByte := by
  cases packet with
  | publish packet =>
    obtain ⟨type, dup, qos, retain⟩ := bits_of_flags packet.flags
    exact .publish type dup qos retain
  | disconnect packet => exact .disconnect
  | other header content => exact .other

/-- The content comes to its end with the size that the fixed header announces, or stops before. -/
theorem content_ends {packet : Packet} {limit : Nat}
    (fits : packet.size limit ≤ VarInt.maximum) :
    (packet.content (packet.size limit)).Ends (packet.size limit) := by
  cases packet with
  | publish packet => exact packet.encoding_ends
  | disconnect packet => exact Disconnect.encoding_ends fits
  | other header content => exact .ofBytes content

/-- Content of any size stops at no other errors. -/
theorem interrupts_of_content {packet : Packet} {limit : Nat} {error : WireError}
    (stopped : (packet.content (packet.size limit)).error = some error) :
    Encoding.Interrupts error := by
  cases packet with
  | publish packet => exact (packet.encoding_ends.stops error stopped).1
  | disconnect packet => exact ((packet.encoding_ends_length limit).stops error stopped).1
  | other header content => cases stopped

end Mqtt.Packet
