import Mqtt.Disconnect.Decode
import Mqtt.Proofs.PropertyTable.Kinds
import Mqtt.Proofs.Wire.Field

/-!
The grammar of DISCONNECT. A body is empty, a reason code, or a reason code and a table of properties
with nothing behind them; the decoder accepts exactly such bodies, as the packet with those
properties. Which error another body is refused with is not covered.
-/
namespace Mqtt.Disconnect

/-- The bytes behind the identifier. -/
def Property.ValueForm : Property → Bytes → Prop
  | sessionExpiry seconds, encoded => encoded = BigEndian.encode 4 seconds.toNat
  | serverReference text, encoded => TextForm text encoded
  | reasonString text, encoded => TextForm text encoded
  | user property, encoded => property.Form encoded

theorem schema_describes : schema.Describes Property.ValueForm where
  value {id reader} found := by
    cases id <;> cases found
    case sessionExpiryInterval =>
      exact PropertySchema.recognizes_constructor Reader.uint32_recognizes
        (fun property => by cases property <;> simp [schema, Property.id]) fun _ _ => Iff.rfl
    case serverReference =>
      exact PropertySchema.recognizes_constructor Reader.text_recognizes
        (fun property => by cases property <;> simp [schema, Property.id]) fun _ _ => Iff.rfl
    case reasonString =>
      exact PropertySchema.recognizes_constructor Reader.text_recognizes
        (fun property => by cases property <;> simp [schema, Property.id]) fun _ _ => Iff.rfl
    case userProperty =>
      exact PropertySchema.recognizes_constructor Reader.userProperty_recognizes
        (fun property => by cases property <;> simp [schema, Property.id]) fun _ _ => Iff.rfl
  admitted property := by cases property <;> rfl

/-- A packet has exactly the properties of a list: the single ones wherever they stand, and the user
properties in their order. -/
structure Collects (disconnect : Disconnect) (properties : List Property) : Prop where
  sessionExpiry : ∀ seconds,
    disconnect.sessionExpiry = some seconds ↔ .sessionExpiry seconds ∈ properties
  serverReference : ∀ text,
    disconnect.serverReference = some text ↔ .serverReference text ∈ properties
  reasonString : ∀ text, disconnect.reasonString = some text ↔ .reasonString text ∈ properties
  userProperties : disconnect.userProperties.map .user =
    properties.filter fun property => property.id == .userProperty

theorem collects_ofProperties {properties : List Property}
    (unrepeated : schema.Unrepeated properties) (reason : ReasonCode) :
    (ofProperties reason properties).Collects properties where
  sessionExpiry := PropertySchema.findSome?_eq_some_iff_mem unrepeated rfl (fun _ => rfl)
    fun property _ => by cases property <;> simp
  serverReference := PropertySchema.findSome?_eq_some_iff_mem unrepeated rfl (fun _ => rfl)
    fun property _ => by cases property <;> simp
  reasonString := PropertySchema.findSome?_eq_some_iff_mem unrepeated rfl (fun _ => rfl)
    fun property _ => by cases property <;> simp
  userProperties :=
    PropertySchema.map_filterMap_eq_filter schema
      (fun property => by cases property <;> simp [schema, Property.id])
      (fun property _ => by cases property <;> simp) properties

/-- A reason code and a table determine the packet. -/
theorem collects_iff {disconnect : Disconnect} {properties : List Property}
    (unrepeated : schema.Unrepeated properties) :
    disconnect.Collects properties ↔ disconnect = ofProperties disconnect.reason properties := by
  constructor
  · intro collected
    have picked := collects_ofProperties unrepeated disconnect.reason
    have sessionExpiry := Option.ext fun seconds =>
      (collected.sessionExpiry seconds).trans (picked.sessionExpiry seconds).symm
    have serverReference := Option.ext fun text =>
      (collected.serverReference text).trans (picked.serverReference text).symm
    have reasonString := Option.ext fun text =>
      (collected.reasonString text).trans (picked.reasonString text).symm
    have userProperties :=
      (List.map_inj_right fun _ _ same => Property.user.inj same).mp
        (collected.userProperties.trans picked.userProperties.symm)
    cases disconnect
    simp only [ofProperties, Disconnect.mk.injEq]
    exact ⟨trivial, sessionExpiry, serverReference, reasonString, userProperties⟩
  · intro same
    rw [same]
    exact collects_ofProperties unrepeated _

/-- The bodies that stand for a packet. -/
inductive Form : Disconnect → Bytes → Prop
  | empty : Form {} []
  | reason (reason : ReasonCode) : Form { reason := reason } [reason.code]
  | table {disconnect : Disconnect} {properties : List Property} {table : Bytes}
      (listed : schema.TableForm Property.ValueForm properties table)
      (collected : disconnect.Collects properties) :
      Form disconnect (disconnect.reason.code :: table)

theorem reasonReader_recognizes :
    reasonReader.Recognizes fun reason encoded => encoded = [reason.code] := by
  refine (Reader.uint8_recognizes.mapSome _ _).congr fun reason encoded => ?_
  simp [ReasonCode.ofCode?_eq_some_iff]

theorem run_reasonReader (reason : ReasonCode) (rest : Bytes) :
    reasonReader.run (reason.code :: rest) = .ok (reason, 1) :=
  reasonReader_recognizes.complete rfl rest

/-- A reason code and a table are read to their end. -/
theorem decode_cons {reason : ReasonCode} {properties : List Property} {table : Bytes}
    (listed : schema.TableForm Property.ValueForm properties table) :
    decode (reason.code :: table) = .ok (ofProperties reason properties) := by
  have read : schema.read.run table = .ok (properties, table.length) := by
    have found := (PropertySchema.read_recognizes schema_describes).complete listed []
    rwa [List.append_nil] at found
  have present : table.isEmpty = false := by
    rw [List.isEmpty_eq_false_iff]
    exact List.ne_nil_of_length_pos listed.length_pos
  simp [decode, run_reasonReader, read, present]

theorem form_of_decode {body : Bytes} {disconnect : Disconnect}
    (decoded : decode body = .ok disconnect) : disconnect.Form body := by
  unfold decode at decoded
  split at decoded
  · rename_i empty
    cases decoded
    rw [List.isEmpty_iff.mp empty]
    exact .empty
  · split at decoded
    · cases decoded
    · rename_i reason used start
      obtain ⟨head, parts, width, rfl⟩ := reasonReader_recognizes.split start
      rw [parts]
      dsimp only at decoded
      split at decoded
      · rename_i bare
        cases decoded
        rw [List.isEmpty_iff.mp bare]
        exact .reason reason
      · split at decoded
        · cases decoded
        · rename_i properties length read
          split at decoded
          · rename_i finished
            cases decoded
            obtain ⟨table, behind, -, listed⟩ :=
              (PropertySchema.read_recognizes schema_describes).split read
            rw [List.isEmpty_iff.mp finished, List.append_nil] at behind
            rw [behind]
            exact .table listed (collects_ofProperties listed.unrepeated reason)
          · cases decoded

/-- The decoder accepts the bodies of the grammar, as the packets they stand for. -/
theorem decode_eq_ok_iff_form {body : Bytes} {disconnect : Disconnect} :
    decode body = .ok disconnect ↔ disconnect.Form body := by
  constructor
  · exact form_of_decode
  · intro form
    cases form with
    | empty => rfl
    | reason reason => simp [decode, run_reasonReader reason []]
    | table listed collected =>
      rw [decode_cons listed, ← (collects_iff listed.unrepeated).mp collected]

end Mqtt.Disconnect
