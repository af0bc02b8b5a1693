import Mqtt.Proofs.Disconnect.Writing
import Mqtt.Proofs.Wire.VarInt.Words

/-!
The two passes over a DISCONNECT. The first computes a size under the limit; the second is given the
size as a word of 32 bits, without the limit, and finds the length of the properties and the room for
diagnostics in it. Whether what is written can be read is not covered.
-/
namespace Mqtt.Disconnect

/-- What the second pass takes for the length of the properties, unless it subtracts more than there
is. The reason code is one byte of the size. -/
def tableLength? (size : UInt32) : Option UInt32 :=
  (difference? size 1).bind VarInt.blockLength?

/-- The content with a length field and the diagnostics that have room. -/
def spelling (disconnect : Disconnect) (length room : Nat) : Encoding :=
  .uint8 disconnect.reason.code ++ .varInt length ++
    .concat ((disconnect.trim room).properties.map Property.encoding)

/-- A reason code and a length field are always there. -/
theorem two_le_size (disconnect : Disconnect) (limit : Nat) : 2 ≤ disconnect.size limit := by
  have width := VarInt.size_pos (disconnect.propertiesSize limit)
  simp only [size]
  omega

theorem tableLength?_eq_some_iff {size length : UInt32} :
    tableLength? size = some length ↔
      2 ≤ size.toNat ∧ length.toNat = VarInt.blockLength (size.toNat - 1) := by
  simp only [tableLength?, Option.bind_eq_some_iff, VarInt.blockLength?_eq_some_iff]
  constructor
  · rintro ⟨behind, taken, nonempty, found⟩
    obtain ⟨-, left⟩ := difference?_eq_some_iff.mp taken
    rw [UInt32.toNat_one] at left
    rw [left] at nonempty found
    exact ⟨by omega, found⟩
  · rintro ⟨nonempty, same⟩
    have behind : (UInt32.ofNat (size.toNat - 1)).toNat = size.toNat - 1 :=
      UInt32.toNat_ofNat_of_lt' (Nat.lt_of_le_of_lt (Nat.sub_le _ _) size.toNat_lt)
    refine ⟨.ofNat (size.toNat - 1), difference?_eq_some_iff.mpr ?_, ?_⟩
    · rw [UInt32.toNat_one, behind]
      exact ⟨by omega, rfl⟩
    · rw [behind]
      exact ⟨by omega, same⟩

/-- The second pass writes the length that it found, and the diagnostics for which it leaves room. -/
theorem encoding_of_tableLength? {size length : UInt32} (found : tableLength? size = some length)
    (disconnect : Disconnect) :
    disconnect.encoding size.toNat =
      disconnect.spelling length.toNat (length.toNat - disconnect.fixedSize) := by
  rw [(tableLength?_eq_some_iff.mp found).2]
  rfl

theorem tableLength?_size {disconnect : Disconnect} {limit : Nat}
    (fits : disconnect.size limit < UInt32.size) :
    tableLength? (.ofNat (disconnect.size limit)) = some (.ofNat (disconnect.propertiesSize limit)) := by
  have smaller : disconnect.propertiesSize limit < UInt32.size := by
    simp only [size] at fits
    omega
  rw [tableLength?_eq_some_iff, UInt32.toNat_ofNat_of_lt' fits, UInt32.toNat_ofNat_of_lt' smaller]
  exact ⟨disconnect.two_le_size limit, (disconnect.blockLength_size limit).symm⟩

/-- Both passes come to the same length and keep the same diagnostics, whatever room the limit left for
them, and the second never subtracts more than there is. What it writes of a size goes by the length
that it finds; of the size that the first pass computes it writes what that pass counted. Any length is
found from the size of its block in this way. -/
theorem passes_agree {disconnect : Disconnect} {limit : Nat}
    (fits : disconnect.size limit < UInt32.size) :
    2 ≤ disconnect.size limit ∧
    (∃ length, tableLength? (.ofNat (disconnect.size limit)) = some length ∧
      length.toNat = VarInt.blockLength (disconnect.size limit - 1) ∧
      length.toNat = disconnect.propertiesSize limit ∧
      disconnect.trim (length.toNat - disconnect.fixedSize) =
        disconnect.trim (disconnect.budget limit)) ∧
    disconnect.encoding (disconnect.size limit) =
      disconnect.spelling (disconnect.propertiesSize limit) (disconnect.budget limit) ∧
    (∀ size length, tableLength? size = some length →
      disconnect.encoding size.toNat =
        disconnect.spelling length.toNat (length.toNat - disconnect.fixedSize)) ∧
    ∀ number, number + VarInt.size number < UInt32.size →
      VarInt.blockLength? (.ofNat (VarInt.size number + number)) = some (.ofNat number) := by
  have found := tableLength?_size fits
  refine ⟨disconnect.two_le_size limit, ⟨_, found, ?_⟩, disconnect.encoding_size limit,
    fun size length given => encoding_of_tableLength? given disconnect, fun number short => ?_⟩
  · obtain ⟨-, same⟩ := tableLength?_eq_some_iff.mp found
    rw [UInt32.toNat_ofNat_of_lt' fits, disconnect.blockLength_size limit] at same
    rw [same]
    exact ⟨(disconnect.blockLength_size limit).symm, rfl, disconnect.trim_propertiesSize limit⟩
  · exact VarInt.blockLength?_size (by omega)

/-- Its first user property and the reason string take 128 bytes together, the least that have a length
field of two bytes. -/
def verge : Disconnect where
  reason := .malformedPacket
  reasonString := some "r"
  userProperties := [⟨"k", String.ofList (List.replicate 118 'x')⟩, ⟨"long key", "long value"⟩]

/-- A limit of 140 leaves room for 135 bytes, of which the second pass finds 128. The second user property
fits into neither. -/
theorem passes_agree_verge :
    verge.size 140 < UInt32.size ∧ tableLength? (.ofNat (verge.size 140)) = some 128 ∧
      verge.trim 128 = verge.trim 135 ∧
      verge.encoding (verge.size 140) = verge.spelling 128 135 := by
  have fits : verge.size 140 < UInt32.size := by decide +kernel
  have known : verge.propertiesSize 140 = 128 := by decide +kernel
  obtain ⟨-, ⟨length, found, -, same, kept⟩, written, -⟩ := passes_agree fits
  rw [known] at same written
  have word : length = 128 := UInt32.toNat_inj.mp same
  rw [same] at kept
  exact ⟨fits, word ▸ found, kept, written⟩

end Mqtt.Disconnect
