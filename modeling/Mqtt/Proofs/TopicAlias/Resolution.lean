import Mqtt.TopicAlias.Resolution

/-!
What the topic aliases of a context mean. A context without a table is one without slots, and only
the limit and the registered topics of a context decide what a packet is about.
-/
namespace Mqtt.Context

/-- The highest alias that has a slot. -/
def aliasLimit (context : Context) : Nat := context.aliases.elim 0 AliasTable.size

/-- The topic that was registered last. -/
def topicOf? (context : Context) (name : TopicAlias) : Option Topic :=
  context.aliases.bind fun table => table.get? name

theorem exists_table_of_le {context : Context} {name : TopicAlias}
    (inside : name.value.toNat ≤ context.aliasLimit) :
    ∃ table, context.aliases = some table ∧ table.contains name := by
  have positive := name.value_pos
  cases found : context.aliases with
  | none =>
    simp only [aliasLimit, found, Option.elim_none] at inside
    omega
  | some table =>
    simp only [aliasLimit, found, Option.elim_some] at inside
    exact ⟨table, rfl, decide_eq_true inside⟩

@[simp] theorem aliasLimit_setAlias (context : Context) (name : TopicAlias) (topic : Topic) :
    (context.setAlias name topic).aliasLimit = context.aliasLimit := by
  unfold aliasLimit setAlias
  cases context.aliases <;> simp

@[simp] theorem aliasLimit_ofConfig (config : Config) :
    (ofConfig config).aliasLimit = config.topicAliasMaximum.toNat := by
  unfold aliasLimit ofConfig
  split
  · rename_i disabled
    simp [disabled]
  · simp

@[simp] theorem topicOf?_ofConfig (config : Config) (name : TopicAlias) :
    (ofConfig config).topicOf? name = none := by
  unfold topicOf? ofConfig
  split <;> simp

theorem topicOf?_setAlias_self {context : Context} {name : TopicAlias}
    (inside : name.value.toNat ≤ context.aliasLimit) (topic : Topic) :
    (context.setAlias name topic).topicOf? name = some topic := by
  obtain ⟨table, found, slot⟩ := exists_table_of_le inside
  simp [topicOf?, setAlias, found, AliasTable.get?_set_self slot]

theorem topicOf?_setAlias_other {name other : TopicAlias} (different : other ≠ name)
    (context : Context) (topic : Topic) :
    (context.setAlias name topic).topicOf? other = context.topicOf? other := by
  unfold topicOf? setAlias
  cases context.aliases with
  | none => rfl
  | some table => simp [AliasTable.get?_set_other different]

theorem setAlias_setAlias (context : Context) (name : TopicAlias) (topic : Topic) :
    (context.setAlias name topic).setAlias name topic = context.setAlias name topic := by
  unfold setAlias
  cases context.aliases <;> simp [AliasTable.set]

/-- How a topic name and an alias give a topic, and the context to go on with. -/
inductive Resolves (context : Context) :
    Option Topic → Option TopicAlias → TopicAlias.Resolution → Prop
  | named {topic : Topic} : Resolves context (some topic) none ⟨topic, false, context⟩
  | registered {topic : Topic} {name : TopicAlias}
      (inside : name.value.toNat ≤ context.aliasLimit) :
      Resolves context (some topic) (some name) ⟨topic, true, context.setAlias name topic⟩
  | known {topic : Topic} {name : TopicAlias} (inside : name.value.toNat ≤ context.aliasLimit)
      (filled : context.topicOf? name = some topic) :
      Resolves context none (some name) ⟨topic, false, context⟩

theorem Resolves.policy {context : Context} {topic : Option Topic} {name : Option TopicAlias}
    {resolved : TopicAlias.Resolution} (resolves : context.Resolves topic name resolved) :
    resolved.context.policy = context.policy := by
  cases resolves <;> rfl

/-- What was resolved once resolves to the same topic again, and registers nothing more. -/
theorem Resolves.again {context : Context} {topic : Option Topic} {name : Option TopicAlias}
    {resolved : TopicAlias.Resolution} (resolves : context.Resolves topic name resolved) :
    resolved.context.Resolves topic name resolved := by
  cases resolves with
  | named => exact .named
  | @registered topic name inside =>
    rw [← aliasLimit_setAlias context name topic] at inside
    have repeated := @Resolves.registered _ topic name inside
    rwa [setAlias_setAlias] at repeated
  | known inside filled => exact .known inside filled

theorem resolve_eq_ok_iff {context : Context} {topic : Option Topic} {name : Option TopicAlias}
    {resolved : TopicAlias.Resolution} :
    context.resolve topic name = .ok resolved ↔ context.Resolves topic name resolved := by
  constructor
  · intro found
    cases name with
    | none =>
      cases topic with
      | none => cases found
      | some topic => cases found; exact .named
    | some name =>
      cases present : context.aliases with
      | none => simp [resolve, present] at found
      | some table =>
        simp only [resolve, present] at found
        split at found
        · rename_i slot
          have inside : name.value.toNat ≤ context.aliasLimit := by
            simpa [aliasLimit, present, AliasTable.contains] using slot
          cases topic with
          | some topic => cases found; exact .registered inside
          | none =>
            cases filled : table.get? name with
            | none => simp [filled] at found
            | some topic =>
              simp only [filled] at found
              cases found
              exact .known inside (by simp [topicOf?, present, filled])
        · cases found
  · intro resolves
    cases resolves with
    | named => rfl
    | registered inside =>
      obtain ⟨table, present, slot⟩ := exists_table_of_le inside
      simp [resolve, present, slot]
    | known inside filled =>
      obtain ⟨table, present, slot⟩ := exists_table_of_le inside
      simp only [topicOf?, present, Option.bind_some] at filled
      simp [resolve, present, slot, filled]

end Mqtt.Context
