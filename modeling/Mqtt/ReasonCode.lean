import Mqtt.Enumeration

/-!
Reason codes of DISCONNECT: why a connection ends.
-/
namespace Mqtt

inductive ReasonCode
  | normalDisconnection
  | disconnectWithWillMessage
  | unspecifiedError
  | malformedPacket
  | protocolError
  | implementationSpecificError
  | notAuthorized
  | serverBusy
  | serverShuttingDown
  | badAuthenticationMethod
  | keepAliveTimeout
  | sessionTakenOver
  | topicFilterInvalid
  | topicNameInvalid
  | receiveMaximumExceeded
  | topicAliasInvalid
  | packetTooLarge
  | messageRateTooHigh
  | quotaExceeded
  | administrativeAction
  | payloadFormatInvalid
  | retainNotSupported
  | qosNotSupported
  | useAnotherServer
  | serverMoved
  | sharedSubscriptionNotSupported
  | connectionRateExceeded
  | maximumConnectTime
  | subscriptionIdentifiersNotSupported
  | wildcardSubscriptionsNotSupported
deriving DecidableEq, Repr

namespace ReasonCode

def all : List ReasonCode :=
  [.normalDisconnection, .disconnectWithWillMessage, .unspecifiedError, .malformedPacket,
   .protocolError, .implementationSpecificError, .notAuthorized, .serverBusy, .serverShuttingDown,
   .badAuthenticationMethod, .keepAliveTimeout, .sessionTakenOver, .topicFilterInvalid,
   .topicNameInvalid, .receiveMaximumExceeded, .topicAliasInvalid, .packetTooLarge,
   .messageRateTooHigh, .quotaExceeded, .administrativeAction, .payloadFormatInvalid,
   .retainNotSupported, .qosNotSupported, .useAnotherServer, .serverMoved,
   .sharedSubscriptionNotSupported, .connectionRateExceeded, .maximumConnectTime,
   .subscriptionIdentifiersNotSupported, .wildcardSubscriptionsNotSupported]

def code : ReasonCode → UInt8
  | normalDisconnection => 0
  | disconnectWithWillMessage => 4
  | unspecifiedError => 128
  | malformedPacket => 129
  | protocolError => 130
  | implementationSpecificError => 131
  | notAuthorized => 135
  | serverBusy => 137
  | serverShuttingDown => 139
  | badAuthenticationMethod => 140
  | keepAliveTimeout => 141
  | sessionTakenOver => 142
  | topicFilterInvalid => 143
  | topicNameInvalid => 144
  | receiveMaximumExceeded => 147
  | topicAliasInvalid => 148
  | packetTooLarge => 149
  | messageRateTooHigh => 150
  | quotaExceeded => 151
  | administrativeAction => 152
  | payloadFormatInvalid => 153
  | retainNotSupported => 154
  | qosNotSupported => 155
  | useAnotherServer => 156
  | serverMoved => 157
  | sharedSubscriptionNotSupported => 158
  | connectionRateExceeded => 159
  | maximumConnectTime => 160
  | subscriptionIdentifiersNotSupported => 161
  | wildcardSubscriptionsNotSupported => 162

def name : ReasonCode → String
  | normalDisconnection => "NormalDisconnection"
  | disconnectWithWillMessage => "DisconnectWithWillMessage"
  | unspecifiedError => "UnspecifiedError"
  | malformedPacket => "MalformedPacket"
  | protocolError => "ProtocolError"
  | implementationSpecificError => "ImplementationSpecificError"
  | notAuthorized => "NotAuthorized"
  | serverBusy => "ServerBusy"
  | serverShuttingDown => "ServerShuttingDown"
  | badAuthenticationMethod => "BadAuthenticationMethod"
  | keepAliveTimeout => "KeepAliveTimeout"
  | sessionTakenOver => "SessionTakenOver"
  | topicFilterInvalid => "TopicFilterInvalid"
  | topicNameInvalid => "TopicNameInvalid"
  | receiveMaximumExceeded => "ReceiveMaximumExceeded"
  | topicAliasInvalid => "TopicAliasInvalid"
  | packetTooLarge => "PacketTooLarge"
  | messageRateTooHigh => "MessageRateTooHigh"
  | quotaExceeded => "QuotaExceeded"
  | administrativeAction => "AdministrativeAction"
  | payloadFormatInvalid => "PayloadFormatInvalid"
  | retainNotSupported => "RetainNotSupported"
  | qosNotSupported => "QosNotSupported"
  | useAnotherServer => "UseAnotherServer"
  | serverMoved => "ServerMoved"
  | sharedSubscriptionNotSupported => "SharedSubscriptionNotSupported"
  | connectionRateExceeded => "ConnectionRateExceeded"
  | maximumConnectTime => "MaximumConnectTime"
  | subscriptionIdentifiersNotSupported => "SubscriptionIdentifiersNotSupported"
  | wildcardSubscriptionsNotSupported => "WildcardSubscriptionsNotSupported"

def ofCode? (byte : UInt8) : Option ReasonCode := all.find? fun reason => reason.code == byte

theorem mem_all (reason : ReasonCode) : reason ∈ all := by cases reason <;> decide

theorem ofCode?_eq_some_iff {byte : UInt8} {reason : ReasonCode} :
    ofCode? byte = some reason ↔ reason.code = byte :=
  Enumeration.find?_eq_some_iff mem_all (by decide)

end ReasonCode
end Mqtt
