import Mqtt.TopicAlias.Table

/-!
What a connection is configured with, and what its PUBLISH decoder remembers between packets. The
decoder remembers nothing but topic aliases; the policy is fixed by the configuration.
-/
namespace Mqtt

structure DecodePolicy where
  /-- Payloads that are declared as text have to be UTF-8. -/
  validatePayload : Bool := false
  /-- Payloads are handed out as views of the received frame. -/
  sharePayload : Bool := false
  /-- Correlation data is handed out as a view of the received frame. -/
  shareCorrelationData : Bool := false
deriving DecidableEq, Repr

structure Config extends DecodePolicy where
  /-- The highest alias the peer may use; zero stands for no aliases at all. -/
  topicAliasMaximum : UInt16 := 0
  /-- The longest frame that is accepted; zero stands for no limit. -/
  maxFrameSize : Nat := 0
  /-- The longest packet that the peer accepts; zero stands for the protocol's own limit. -/
  maxPacketSize : Nat := 0
deriving DecidableEq, Repr

structure Context where
  aliases : Option AliasTable
  policy : DecodePolicy
deriving DecidableEq

namespace Context

def ofConfig (config : Config) : Context where
  aliases :=
    if config.topicAliasMaximum = 0 then none
    else some (AliasTable.empty config.topicAliasMaximum.toNat)
  policy := config.toDecodePolicy

/-- Forgets every topic alias; the table keeps its size. -/
def reset (context : Context) : Context :=
  { context with aliases := context.aliases.map AliasTable.clear }

/-- Registers a topic for an alias, where the table has a slot for it. -/
def setAlias (context : Context) (name : TopicAlias) (topic : Topic) : Context :=
  { context with aliases := context.aliases.map fun table => table.set name topic }

theorem reset_ofConfig (config : Config) : (ofConfig config).reset = ofConfig config := by
  unfold reset ofConfig
  split <;> simp [AliasTable.clear]

end Context
end Mqtt
