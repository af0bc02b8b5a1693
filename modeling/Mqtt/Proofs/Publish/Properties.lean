import Mqtt.Proofs.PropertyTable.Kinds
import Mqtt.Proofs.Wire.Field
import Mqtt.Publish.Property

/-!
The properties of PUBLISH as they stand in a table, and the record that collects them. A table
determines its record: single properties wherever they stand, repeated ones in their order.
-/
namespace Mqtt

theorem SubscriptionId.ofValue?_eq_some_iff {value : Nat} {id : SubscriptionId} :
    ofValue? value = some id ↔ id.value = value := by
  constructor
  · intro found
    unfold ofValue? at found
    split at found <;> cases found
    rfl
  · rintro rfl
    exact ofValue?_value id

namespace Publish

/-- The bytes behind the identifier. -/
def Property.ValueForm : Property → Bytes → Prop
  | payloadFormat format, encoded => encoded = [format.code]
  | messageExpiry seconds, encoded => encoded = BigEndian.encode 4 seconds.toNat
  | topicAlias name, encoded => encoded = BigEndian.encode 2 name.value.toNat
  | contentType text, encoded => TextForm text encoded
  | responseTopic topic, encoded => topic.Form encoded
  | correlationData data, encoded => BinaryForm data encoded
  | user property, encoded => property.Form encoded
  | subscription id, encoded => VarInt.Form id.value encoded

theorem schema_describes : schema.Describes Property.ValueForm where
  value {id reader} found := by
    cases id <;> cases found
    case payloadFormatIndicator =>
      refine PropertySchema.recognizes_constructor ((Reader.uint8_recognizes.mapError _).mapSome _ _)
        (fun property => by cases property <;> simp [schema, Property.id]) fun format encoded => ?_
      simp [Property.ValueForm, PayloadFormat.ofCode?_eq_some_iff]
    case messageExpiryInterval =>
      exact PropertySchema.recognizes_constructor (Reader.uint32_recognizes.mapError _)
        (fun property => by cases property <;> simp [schema, Property.id]) fun _ _ => Iff.rfl
    case topicAlias =>
      refine PropertySchema.recognizes_constructor ((Reader.uint16_recognizes.mapError _).mapSome _ _)
        (fun property => by cases property <;> simp [schema, Property.id]) fun name encoded => ?_
      simp [Property.ValueForm, TopicAlias.ofValue?_eq_some_iff]
    case contentType =>
      exact PropertySchema.recognizes_constructor (Reader.text_recognizes.mapError _)
        (fun property => by cases property <;> simp [schema, Property.id]) fun _ _ => Iff.rfl
    case responseTopic =>
      exact PropertySchema.recognizes_constructor ((Reader.binary_recognizes.mapError _).topic _)
        (fun property => by cases property <;> simp [schema, Property.id]) fun _ _ => Iff.rfl
    case correlationData =>
      exact PropertySchema.recognizes_constructor (Reader.binary_recognizes.mapError _)
        (fun property => by cases property <;> simp [schema, Property.id]) fun _ _ => Iff.rfl
    case userProperty =>
      exact PropertySchema.recognizes_constructor (Reader.userProperty_recognizes.mapError _)
        (fun property => by cases property <;> simp [schema, Property.id]) fun _ _ => Iff.rfl
    case subscriptionIdentifier =>
      refine PropertySchema.recognizes_constructor ((VarInt.reader_recognizes.mapError _).mapSome _ _)
        (fun property => by cases property <;> simp [schema, Property.id]) fun id encoded => ?_
      simp [Property.ValueForm, SubscriptionId.ofValue?_eq_some_iff]
  admitted property := by cases property <;> rfl

namespace Properties

/-- A record holds exactly the properties of a list: the single ones wherever they stand, and the
others in their order. -/
structure Collects (record : Properties) (properties : List Property) : Prop where
  payloadFormat : ∀ format,
    record.payloadFormat = some format ↔ .payloadFormat format ∈ properties
  messageExpiry : ∀ seconds,
    record.messageExpiry = some seconds ↔ .messageExpiry seconds ∈ properties
  topicAlias : ∀ name, record.topicAlias = some name ↔ .topicAlias name ∈ properties
  contentType : ∀ text, record.contentType = some text ↔ .contentType text ∈ properties
  responseTopic : ∀ topic, record.responseTopic = some topic ↔ .responseTopic topic ∈ properties
  correlationData : ∀ data, record.correlationData = some data ↔ .correlationData data ∈ properties
  userProperties : record.userProperties.map .user =
    properties.filter fun property => property.id == .userProperty
  subscriptionIds : record.subscriptionIds.map .subscription =
    properties.filter fun property => property.id == .subscriptionIdentifier

theorem collects_ofList {properties : List Property} (unrepeated : schema.Unrepeated properties) :
    (ofList properties).Collects properties where
  payloadFormat := PropertySchema.findSome?_eq_some_iff_mem unrepeated rfl (fun _ => rfl)
    fun property _ => by cases property <;> simp
  messageExpiry := PropertySchema.findSome?_eq_some_iff_mem unrepeated rfl (fun _ => rfl)
    fun property _ => by cases property <;> simp
  topicAlias := PropertySchema.findSome?_eq_some_iff_mem unrepeated rfl (fun _ => rfl)
    fun property _ => by cases property <;> simp
  contentType := PropertySchema.findSome?_eq_some_iff_mem unrepeated rfl (fun _ => rfl)
    fun property _ => by cases property <;> simp
  responseTopic := PropertySchema.findSome?_eq_some_iff_mem unrepeated rfl (fun _ => rfl)
    fun property _ => by cases property <;> simp
  correlationData := PropertySchema.findSome?_eq_some_iff_mem unrepeated rfl (fun _ => rfl)
    fun property _ => by cases property <;> simp
  userProperties :=
    PropertySchema.map_filterMap_eq_filter schema
      (fun property => by cases property <;> simp [schema, Property.id])
      (fun property _ => by cases property <;> simp) properties
  subscriptionIds :=
    PropertySchema.map_filterMap_eq_filter schema
      (fun property => by cases property <;> simp [schema, Property.id])
      (fun property _ => by cases property <;> simp) properties

theorem Collects.unique {first second : Properties} {properties : List Property}
    (one : first.Collects properties) (two : second.Collects properties) : first = second := by
  have single {β : Type} {left right : Option β} {holds : β → Prop}
      (here : ∀ value, left = some value ↔ holds value)
      (there : ∀ value, right = some value ↔ holds value) : left = right :=
    Option.ext fun value => (here value).trans (there value).symm
  have payloadFormat := single one.payloadFormat two.payloadFormat
  have messageExpiry := single one.messageExpiry two.messageExpiry
  have topicAlias := single one.topicAlias two.topicAlias
  have contentType := single one.contentType two.contentType
  have responseTopic := single one.responseTopic two.responseTopic
  have correlationData := single one.correlationData two.correlationData
  have userProperties : first.userProperties = second.userProperties :=
    (List.map_inj_right fun _ _ same => Property.user.inj same).mp
      (one.userProperties.trans two.userProperties.symm)
  have subscriptionIds : first.subscriptionIds = second.subscriptionIds :=
    (List.map_inj_right fun _ _ same => Property.subscription.inj same).mp
      (one.subscriptionIds.trans two.subscriptionIds.symm)
  cases first
  cases second
  simp only [Properties.mk.injEq]
  exact ⟨payloadFormat, messageExpiry, topicAlias, contentType, responseTopic, correlationData,
    userProperties, subscriptionIds⟩

/-- A table determines its record. -/
theorem collects_iff {record : Properties} {properties : List Property}
    (unrepeated : schema.Unrepeated properties) :
    record.Collects properties ↔ record = ofList properties := by
  constructor
  · intro collected
    exact collected.unique (collects_ofList unrepeated)
  · rintro rfl
    exact collects_ofList unrepeated

end Properties
end Publish
end Mqtt
