import Mqtt.Disconnect.Encode
import Mqtt.Proofs.Wire.Writing

/-!
What is written of a DISCONNECT. The size is computed under a limit and the writer only learns the
size, so both have to leave out the same diagnostics. What the peer reads is not covered.
-/
namespace Mqtt.Disconnect

/-- A start that fits is also what fits into the room it takes, and into anything up to the larger
budget. -/
theorem fitting_eq_fitting {α : Type} {size : α → Nat} {small large : Nat} {items : List α}
    (smaller : small ≤ large) (enough : totalSize size (fitting size large items) ≤ small) :
    fitting size small items = fitting size large items := by
  induction items generalizing small large with
  | nil => rfl
  | cons item rest ih =>
    by_cases fits : size item ≤ large
    · have taken : fitting size large (item :: rest) = item :: fitting size (large - size item) rest :=
        if_pos fits
      rw [taken, totalSize_cons] at enough
      have behind : fitting size (small - size item) rest = fitting size (large - size item) rest :=
        ih (by omega) (by omega)
      rw [taken, fitting, if_pos (by omega), behind]
    · rw [fitting, fitting, if_neg fits, if_neg (by omega)]

theorem sizeOf_append (first second : List Property) :
    sizeOf (first ++ second) = sizeOf first + sizeOf second := totalSize_append ..

private theorem sizeOf_map_user (properties : List UserProperty) :
    sizeOf (properties.map Property.user) =
      totalSize (fun property => (Property.user property).size) properties := by
  induction properties with
  | nil => rfl
  | cons property rest ih =>
    rw [List.map_cons, sizeOf, totalSize_cons, totalSize_cons]
    exact congrArg _ ih

/-- The reason string, if there is room for it. -/
private def roomFor (reason : Option String) (left : Nat) : Option String :=
  reason.filter fun text => (Property.reasonString text).size ≤ left

private def reasonSize (reason : Option String) : Nat :=
  sizeOf (reason.map Property.reasonString).toList

private theorem roomFor_some (text : String) (left : Nat) :
    roomFor (some text) left =
      if (Property.reasonString text).size ≤ left then some text else none := by
  simp [roomFor, Option.filter_some]

private theorem reasonSize_some (text : String) :
    reasonSize (some text) = (Property.reasonString text).size := rfl

private theorem reasonSize_none : reasonSize none = 0 := rfl

private theorem reasonSize_roomFor_le (reason : Option String) (left : Nat) :
    reasonSize (roomFor reason left) ≤ left := by
  cases reason with
  | none => exact Nat.zero_le left
  | some text =>
    rw [roomFor_some]
    split
    · rename_i fits
      exact fits
    · exact Nat.zero_le left

private theorem roomFor_reasonSize (reason : Option String) (left : Nat) :
    roomFor reason (reasonSize (roomFor reason left)) = roomFor reason left := by
  cases reason with
  | none => rfl
  | some text =>
    have positive : 0 < (Property.reasonString text).size := Nat.add_pos_left Nat.one_pos _
    by_cases fits : (Property.reasonString text).size ≤ left
    · rw [roomFor_some text left, if_pos fits, reasonSize_some, roomFor_some, if_pos (Nat.le_refl _)]
    · rw [roomFor_some text left, if_neg fits, reasonSize_none, roomFor_some, if_neg (by omega)]

private theorem sizeOf_diagnostics (disconnect : Disconnect) (budget : Nat) :
    sizeOf (disconnect.trim budget).diagnostics =
      sizeOf ((disconnect.trim budget).userProperties.map Property.user) +
        reasonSize (roomFor disconnect.reasonString
          (budget - sizeOf ((disconnect.trim budget).userProperties.map Property.user))) :=
  sizeOf_append ..

private theorem sizeOf_users_le (disconnect : Disconnect) (budget : Nat) :
    sizeOf ((disconnect.trim budget).userProperties.map Property.user) ≤ budget := by
  rw [sizeOf_map_user]
  exact totalSize_fitting_le budget disconnect.userProperties

/-- The diagnostics that are kept fit into the budget together. -/
theorem sizeOf_diagnostics_le (disconnect : Disconnect) (budget : Nat) :
    sizeOf (disconnect.trim budget).diagnostics ≤ budget := by
  have users := sizeOf_users_le disconnect budget
  have reason := reasonSize_roomFor_le disconnect.reasonString
    (budget - sizeOf ((disconnect.trim budget).userProperties.map Property.user))
  rw [sizeOf_diagnostics]
  omega

/-- Trimming to the size of what was kept leaves out nothing else. -/
theorem trim_sizeOf_diagnostics (disconnect : Disconnect) (budget : Nat) :
    disconnect.trim (sizeOf (disconnect.trim budget).diagnostics) = disconnect.trim budget := by
  have users : (disconnect.trim (sizeOf (disconnect.trim budget).diagnostics)).userProperties =
      (disconnect.trim budget).userProperties := by
    apply fitting_eq_fitting (sizeOf_diagnostics_le disconnect budget)
    rw [sizeOf_diagnostics, sizeOf_map_user]
    exact Nat.le_add_right _ _
  have reason : (disconnect.trim (sizeOf (disconnect.trim budget).diagnostics)).reasonString =
      (disconnect.trim budget).reasonString := by
    calc (disconnect.trim (sizeOf (disconnect.trim budget).diagnostics)).reasonString
      _ = roomFor disconnect.reasonString (sizeOf (disconnect.trim budget).diagnostics -
            sizeOf ((disconnect.trim budget).userProperties.map Property.user)) := by
        rw [← users]
        rfl
      _ = roomFor disconnect.reasonString (reasonSize (roomFor disconnect.reasonString
            (budget - sizeOf ((disconnect.trim budget).userProperties.map Property.user)))) := by
        rw [sizeOf_diagnostics, Nat.add_sub_cancel_left]
      _ = (disconnect.trim budget).reasonString := roomFor_reasonSize _ _
  unfold trim at users reason ⊢
  simp only [Disconnect.mk.injEq]
  exact ⟨trivial, trivial, trivial, reason, users⟩

/-- A packet whose diagnostics have room keeps all of them. -/
theorem trim_eq_self {disconnect : Disconnect} {budget : Nat}
    (fits : sizeOf disconnect.diagnostics ≤ budget) : disconnect.trim budget = disconnect := by
  have parts : sizeOf disconnect.diagnostics =
      sizeOf (disconnect.userProperties.map Property.user) + reasonSize disconnect.reasonString :=
    sizeOf_append ..
  have users : fitting (fun property => (Property.user property).size) budget
      disconnect.userProperties = disconnect.userProperties := by
    apply fitting_eq_self
    rw [← sizeOf_map_user]
    omega
  have reason : roomFor disconnect.reasonString
      (budget - sizeOf (disconnect.userProperties.map Property.user)) = disconnect.reasonString := by
    cases present : disconnect.reasonString with
    | none => rfl
    | some text =>
      rw [present, reasonSize_some] at parts
      rw [roomFor_some, if_pos (by omega)]
  calc disconnect.trim budget
    _ = { disconnect with
          userProperties := disconnect.userProperties
          reasonString := roomFor disconnect.reasonString
            (budget - sizeOf (disconnect.userProperties.map Property.user)) } := by
      unfold trim
      rw [users]
      rfl
    _ = disconnect := by rw [reason]

/-- Nothing but the diagnostics depends on the limit. -/
theorem propertiesSize_eq (disconnect : Disconnect) (limit : Nat) :
    disconnect.propertiesSize limit = disconnect.fixedSize +
      sizeOf (disconnect.trim (disconnect.budget limit)).diagnostics := by
  rw [propertiesSize, properties, sizeOf_append]
  rfl

/-- What is never left out decides whether the packet keeps to a limit. -/
theorem size_le_iff (disconnect : Disconnect) (limit : Nat) :
    disconnect.size limit ≤ limit ↔
      1 + VarInt.size disconnect.fixedSize + disconnect.fixedSize ≤ limit := by
  have kept := sizeOf_diagnostics_le disconnect (disconnect.budget limit)
  simp only [size, propertiesSize_eq]
  generalize sizeOf (disconnect.trim (disconnect.budget limit)).diagnostics = diagnosed at kept ⊢
  unfold budget at kept
  by_cases room : 1 + 4 + disconnect.fixedSize ≤ limit
  · have field := VarInt.size_le_four disconnect.fixedSize
    have longer := VarInt.size_le_four (disconnect.fixedSize + diagnosed)
    constructor <;> intro <;> omega
  · have none : diagnosed = 0 := by omega
    rw [none, Nat.add_zero]

/-- The writer finds the length of the properties from the size that it was given. -/
theorem blockLength_size (disconnect : Disconnect) (limit : Nat) :
    VarInt.blockLength (disconnect.size limit - 1) = disconnect.propertiesSize limit := by
  unfold size
  rw [Nat.add_assoc, Nat.add_sub_cancel_left, VarInt.blockLength_size]

/-- The room that it finds for diagnostics may be less than there was, and leaves out no other. -/
theorem trim_propertiesSize (disconnect : Disconnect) (limit : Nat) :
    disconnect.trim (disconnect.propertiesSize limit - disconnect.fixedSize) =
      disconnect.trim (disconnect.budget limit) := by
  rw [propertiesSize_eq, Nat.add_sub_cancel_left, trim_sizeOf_diagnostics]

/-- The length field that the writer finds from the size is the one that the size was made of, and the
same diagnostics are left out. -/
theorem encoding_size (disconnect : Disconnect) (limit : Nat) :
    disconnect.encoding (disconnect.size limit) =
      .uint8 disconnect.reason.code ++ .varInt (disconnect.propertiesSize limit) ++
        .concat ((disconnect.trim (disconnect.budget limit)).properties.map Property.encoding) := by
  simp only [encoding, blockLength_size, trim_propertiesSize]

theorem Property.encoding_ends (property : Property) :
    property.encoding.Ends property.size := by
  have code := (Encoding.uint8_writes property.id.code).ends
  cases property with
  | sessionExpiry seconds => exact code.append (Encoding.uint32_writes seconds).ends
  | serverReference text => exact code.append (Encoding.text_ends text)
  | reasonString text => exact code.append (Encoding.text_ends text)
  | user property => exact code.append (Encoding.userProperty_ends property)

/-- The length field may be longer than the one that the size was made of. -/
theorem encoding_ends_length (disconnect : Disconnect) (limit : Nat) :
    (disconnect.encoding (disconnect.size limit)).Ends
      (1 + (VarInt.encode (disconnect.propertiesSize limit)).length +
        disconnect.propertiesSize limit) := by
  rw [encoding_size]
  exact ((Encoding.uint8_writes disconnect.reason.code).ends.append (.ofBytes _)).append
    (Encoding.Ends.concat _ Property.encoding_ends)

/-- What is written has the size that was announced, unless it stops before that. -/
theorem encoding_ends {disconnect : Disconnect} {limit : Nat}
    (fits : disconnect.size limit ≤ VarInt.maximum) :
    (disconnect.encoding (disconnect.size limit)).Ends (disconnect.size limit) := by
  have length : disconnect.propertiesSize limit ≤ VarInt.maximum := by
    simp only [size] at fits
    omega
  have ends := disconnect.encoding_ends_length limit
  rwa [VarInt.length_encode length] at ends

theorem size_reasonString (text : String) :
    (Property.reasonString text).size = text.utf8ByteSize + 3 := by
  simp only [Property.size, Property.valueSize, textSize]
  omega

/-- A reason string is sent as it is or not at all. -/
theorem trim_withReason (reason : ReasonCode) (text : String) (budget : Nat) :
    (withReason reason text).trim budget =
      if (Property.reasonString text).size ≤ budget then withReason reason text
      else { reason := reason } := by
  split <;> simp_all [trim, withReason, fitting, sizeOf, Option.filter_some]

theorem size_withReason (reason : ReasonCode) (text : String) (limit : Nat) :
    (withReason reason text).size limit =
      if text.utf8ByteSize + 8 ≤ limit then
        1 + VarInt.size (text.utf8ByteSize + 3) + (text.utf8ByteSize + 3)
      else 2 := by
  have budget : (withReason reason text).budget limit = limit - 5 := rfl
  rw [size, propertiesSize, budget, trim_withReason, size_reasonString]
  by_cases room : text.utf8ByteSize + 8 ≤ limit
  · rw [if_pos room, if_pos (by omega)]
    simp [withReason, properties, fixedProperties, diagnostics, sizeOf, size_reasonString]
  · rw [if_neg room, if_neg (by omega)]
    rfl

private theorem short_of_text {text : String} (complete : (Encoding.text text).error = none) :
    text.utf8ByteSize ≤ maximumFieldLength := by
  rw [Encoding.text, Encoding.error_binary] at complete
  split at complete
  · rename_i short
    simpa using short
  · cases complete

/-- With a reason string as its only property, a packet that can be written is short. -/
theorem size_withReason_le {reason : ReasonCode} {text : String} {limit : Nat}
    (complete : ((withReason reason text).encoding ((withReason reason text).size limit)).error =
      none) : (withReason reason text).size limit ≤ VarInt.maximum := by
  have whole := size_withReason reason text limit
  split at whole
  · rename_i room
    have fits : (Property.reasonString text).size ≤ limit - 5 := by
      rw [size_reasonString]
      omega
    have kept : (withReason reason text).trim ((withReason reason text).budget limit) =
        withReason reason text := (trim_withReason reason text _).trans (if_pos fits)
    have written : (Encoding.text text).error = none := by
      rw [encoding_size, kept] at complete
      simpa [withReason, properties, fixedProperties, diagnostics, Property.encoding, Property.value,
        Encoding.uint8, Encoding.varInt] using complete
    have short := short_of_text written
    have field := VarInt.size_le_four (text.utf8ByteSize + 3)
    rw [whole, VarInt.maximum]
    simp only [maximumFieldLength] at short
    omega
  · rw [whole]
    decide

end Mqtt.Disconnect
