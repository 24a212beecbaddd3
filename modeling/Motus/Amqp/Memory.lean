import Motus.Transport.Seam

set_option autoImplicit false

/-!
# What a transport remembers for a reconnection

Both AMQP backends keep one topic, one set of options and two flags, and restore
from them on a new connection.  `ensureTopic` and `subscribe` write the same
field `_topic`.  The journal is auxiliary: it is what the calls were, and what a
restoration should follow.
-/

namespace Motus.Amqp

open Motus.Transport

/-- What has been done to a transport that bears on a reconnection. -/
inductive Remark where
  /-- `ensureTopic` returned -/
  | ensured (topic : Topic) (options : TopicOptions)
  /-- a `subscribe` got past its checks -/
  | named (topic : Topic)
  /-- and returned -/
  | subscribed (topic : Topic)
  | closed
  deriving DecidableEq, Repr

/-- The calls on a transport, newest first. -/
abbrev History := List Remark

namespace History

/-- The topic of the active `subscribe` call. -/
def active : History → Option Topic
  | [] => none
  | .subscribed topic :: _ => some topic
  | .closed :: _ => none
  | .ensured _ _ :: rest | .named _ :: rest => active rest

/-- The topic named last, by an `ensureTopic` that returned or by a `subscribe`. -/
def lastNamed : History → Option Topic
  | [] => none
  | .ensured topic _ :: _ | .named topic :: _ => some topic
  | .subscribed _ :: rest | .closed :: rest => lastNamed rest

/-- The options of the last `ensureTopic` that returned. -/
def lastOptions : History → Option TopicOptions
  | [] => none
  | .ensured _ options :: _ => some options
  | .named _ :: rest | .subscribed _ :: rest | .closed :: rest => lastOptions rest

/-- The pairs that were passed to an `ensureTopic` that returned. -/
def ensured (history : History) : List (Topic × TopicOptions) :=
  history.filterMap fun
    | .ensured topic options => some (topic, options)
    | _ => none

/-- A restoration declares only what was declared, and consumes from the topic of
the active subscription and from no other. -/
structure Restored (history : History) (declared : List (Topic × TopicOptions))
    (consumed : List Topic) : Prop where
  declared : ∀ pair ∈ declared, pair ∈ history.ensured
  consumed : consumed = history.active.toList

/-- The topic named last is the subscribed one, and with the options given last it
is a pair that was declared. -/
structure Consistent (history : History) : Prop where
  subscription : ∀ topic, history.active = some topic → history.lastNamed = some topic
  declaration : ∀ topic options, history.lastNamed = some topic →
    history.lastOptions = some options → (topic, options) ∈ history.ensured

instance (history : History) : Decidable history.Consistent :=
  decidable_of_iff
    ((∀ topic ∈ history.active, history.lastNamed = some topic) ∧
      ∀ topic ∈ history.lastNamed, ∀ options ∈ history.lastOptions,
        (topic, options) ∈ history.ensured)
    ⟨fun h => ⟨fun topic ht => h.1 topic ht, fun topic options ht ho => h.2 topic ht options ho⟩,
      fun h => ⟨fun topic ht => h.subscription topic ht,
        fun topic ht options ho => h.declaration topic options ht ho⟩⟩

theorem lastNamed_of_lastOptions {history : History} {options : TopicOptions}
    (h : history.lastOptions = some options) : ∃ topic, history.lastNamed = some topic := by
  induction history with
  | nil => cases h
  | cons remark rest ih =>
      cases remark with
      | ensured topic options' => exact ⟨topic, rfl⟩
      | named topic => exact ⟨topic, rfl⟩
      | subscribed topic => exact ih h
      | closed => exact ih h

end History

/-- What a transport remembers, to restore it after a reconnection. -/
structure Memory where
  topic : Topic := ""
  topicOptions : TopicOptions := {}
  topicDeclared : Bool := false
  subscribed : Bool := false
  /-- Auxiliary: the calls so far, newest first. -/
  journal : History := []
  deriving DecidableEq, Repr

namespace Memory

/-- The fields `ensureTopic` writes. -/
def store (topic : Topic) (options : TopicOptions) (m : Memory) : Memory :=
  { m with topic := topic, topicOptions := options, topicDeclared := true }

/-- Auxiliary: a remark in the journal of the memory. -/
def note (remark : Remark) (m : Memory) : Memory := { m with journal := remark :: m.journal }

/-- The writes at the end of a caller's `ensureTopic`. -/
def ensure (topic : Topic) (options : TopicOptions) (m : Memory) : Memory :=
  (m.store topic options).note (.ensured topic options)

/-- The write of `subscribe` before it starts to consume. -/
def name (topic : Topic) (m : Memory) : Memory :=
  { m with topic := topic, journal := .named topic :: m.journal }

/-- Its write afterwards. -/
def subscribe (topic : Topic) (m : Memory) : Memory :=
  { m with subscribed := true, journal := .subscribed topic :: m.journal }

/-- The write of `close`. -/
def close (m : Memory) : Memory :=
  { m with subscribed := false, journal := .closed :: m.journal }

/-- What a reconnection declares again. -/
def redeclares (m : Memory) : List (Topic × TopicOptions) :=
  if m.topicDeclared then [(m.topic, m.topicOptions)] else []

/-- What a reconnection consumes from again. -/
def reconsumes (m : Memory) : List Topic := if m.subscribed then [m.topic] else []

/-- The fields are what the calls made of them. -/
structure Faithful (m : Memory) : Prop where
  topic : ∀ topic, m.journal.lastNamed = some topic → m.topic = topic
  declared : m.topicDeclared = m.journal.lastOptions.isSome
  options : ∀ options, m.journal.lastOptions = some options → m.topicOptions = options
  subscribed : m.subscribed = m.journal.active.isSome
  /-- a subscription has named its topic -/
  named : m.journal.active.isSome → m.journal.lastNamed.isSome

theorem faithful_init : Faithful {} where
  topic := fun _ h => absurd h (by simp [History.lastNamed])
  declared := rfl
  options := fun _ h => absurd h (by simp [History.lastOptions])
  subscribed := rfl
  named := fun h => absurd h (by simp [History.active])

theorem Faithful.ensure {m : Memory} (h : m.Faithful) (topic : Topic) (options : TopicOptions) :
    (m.ensure topic options).Faithful where
  topic := fun _ heq => Option.some.inj heq
  declared := rfl
  options := fun _ heq => Option.some.inj heq
  subscribed := h.subscribed
  named := fun _ => rfl

theorem Faithful.name {m : Memory} (h : m.Faithful) (topic : Topic) : (m.name topic).Faithful where
  topic := fun _ heq => Option.some.inj heq
  declared := h.declared
  options := h.options
  subscribed := h.subscribed
  named := fun _ => rfl

theorem Faithful.subscribe {m : Memory} (h : m.Faithful) (topic : Topic)
    (hnamed : m.journal.lastNamed = some topic) : (m.subscribe topic).Faithful where
  topic := h.topic
  declared := h.declared
  options := h.options
  subscribed := rfl
  named := fun _ => Option.isSome_of_eq_some hnamed

theorem Faithful.close {m : Memory} (h : m.Faithful) : m.close.Faithful where
  topic := h.topic
  declared := h.declared
  options := h.options
  subscribed := rfl
  named := fun hactive => absurd hactive Bool.false_ne_true

/-- A reconnection from a faithful memory restores what the calls asked for exactly
when the calls were consistent. -/
theorem Faithful.restored_iff {m : Memory} (h : m.Faithful) :
    m.journal.Restored m.redeclares m.reconsumes ↔ m.journal.Consistent := by
  have hpair : ∀ topic options, m.journal.lastNamed = some topic →
      m.journal.lastOptions = some options → m.redeclares = [(topic, options)] := by
    intro topic options htopic hoptions
    have hdeclared : m.topicDeclared = true := by rw [h.declared, hoptions]; rfl
    rw [redeclares, if_pos hdeclared, h.topic topic htopic, h.options options hoptions]
  constructor
  · intro hrestored
    refine ⟨fun topic hactive => ?_, fun topic options htopic hoptions => ?_⟩
    · have hsubscribed : m.subscribed = true := by rw [h.subscribed, hactive]; rfl
      have hconsumed := hrestored.consumed
      rw [reconsumes, if_pos hsubscribed, hactive, Option.toList_some, List.cons.injEq] at hconsumed
      obtain ⟨named, hnamed⟩ :=
        Option.isSome_iff_exists.mp (h.named (Option.isSome_of_eq_some hactive))
      rw [hnamed, ← h.topic named hnamed, hconsumed.1]
    · apply hrestored.declared
      rw [hpair topic options htopic hoptions]
      exact List.mem_singleton_self _
  · intro hconsistent
    refine ⟨fun pair hmem => ?_, ?_⟩
    · cases hoptions : m.journal.lastOptions with
      | none =>
          have hnot : m.topicDeclared = false := by rw [h.declared, hoptions]; rfl
          rw [redeclares, hnot] at hmem
          cases hmem
      | some options =>
          obtain ⟨topic, htopic⟩ := History.lastNamed_of_lastOptions hoptions
          rw [hpair topic options htopic hoptions, List.mem_singleton] at hmem
          rw [hmem]
          exact hconsistent.declaration topic options htopic hoptions
    · cases hactive : m.journal.active with
      | none =>
          have hnot : m.subscribed = false := by rw [h.subscribed, hactive]; rfl
          rw [reconsumes, hnot]
          rfl
      | some topic =>
          have hsubscribed : m.subscribed = true := by rw [h.subscribed, hactive]; rfl
          rw [reconsumes, if_pos hsubscribed, Option.toList_some,
            h.topic topic (hconsistent.subscription topic hactive)]

end Memory

end Motus.Amqp
