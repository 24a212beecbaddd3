import Motus.InMemory.Filing
import Motus.InMemory.Writes

set_option autoImplicit false

/-!
# What is acknowledged

Only a handler that returns `Ack` and a `settle` with `Ack` acknowledge, one message each,
and it is a message that their transport was handed.

`acks` reads the acknowledged messages off the journal.  One step adds at most one, and
names the transport and the call that it comes from.
-/

namespace Motus.InMemory

open Motus.Foundation Motus.Transport

/-- The message that an entry says was acknowledged. -/
def Entry.acked : Entry → Option Held
  | .closed message .acked => some message
  | _ => none

namespace Broker

/-- The messages that were acknowledged, in order. -/
def acks (b : Broker) : List Held := b.journal.filterMap Entry.acked

section

variable {b : Broker}

theorem acks_log (b : Broker) (entry : Entry) :
    (b.log entry).acks = b.acks ++ entry.acked.toList := by
  rw [acks, log, List.filterMap_append]
  cases hentry : entry.acked with
  | none => rw [List.filterMap_cons_none hentry]; rfl
  | some message => rw [List.filterMap_cons_some hentry]; rfl

/-- An entry that acknowledges nothing. -/
theorem acks_log_of_none (b : Broker) {entry : Entry} (h : entry.acked = none) :
    (b.log entry).acks = b.acks := by
  rw [acks_log, h, Option.toList_none, List.append_nil]

/-- No way of filing a message acknowledges one. -/
theorem filing_acks (l : List Held) : Filing (fun _ _ => True) fun b => b.acks = l where
  pushBack := by
    intro b topic message h _
    exact (acks_log_of_none _ rfl).trans h
  pop := fun h _ _ => ⟨h, trivial⟩
  close := by
    intro b message fate h hfate
    refine (acks_log_of_none _ ?_).trans h
    cases fate with
    | acked => exact absurd rfl hfate
    | _ => rfl
  forward := by
    intro b source message h _
    exact ⟨(acks_log_of_none _ rfl).trans h, trivial⟩
  offered := by
    intro b topic body h
    exact (acks_log_of_none _ rfl).trans h
  touch := fun h => h
  groups := fun h => h

theorem acks_ensureTopic (topic : Topic) (options : TopicOptions) (b : Broker) :
    (ensureTopic topic options b).2.acks = b.acks := by
  obtain ⟨groups, ⟨hsame, -⟩ | ⟨-, hnew⟩⟩ := ensureTopic_apply topic options b
  · rw [hsame]
    rfl
  · rw [hnew]
    rfl

theorem acks_purge (topic : Topic) (b : Broker) : (purge topic b).2.acks = b.acks := by
  simp only [purge, Exec.get_bind]
  cases b.find topic with
  | none => rfl
  | some state =>
      have hnone : (state.messages.map (Entry.closed · .purged)).filterMap Entry.acked = [] := by
        rw [List.filterMap_map]
        exact List.filterMap_eq_nil_iff.mpr fun _ _ => rfl
      change (b.journal ++ state.messages.map (Entry.closed · .purged)).filterMap Entry.acked = _
      rw [List.filterMap_append, hnone, List.append_nil]
      rfl

theorem acks_putBackAll (i : Nat) (topic : Topic) (messages : List Held) (b : Broker) :
    (b.putBackAll i topic messages).acks = b.acks := by
  induction messages with
  | nil => rfl
  | cons message rest ih => exact (acks_log_of_none _ rfl).trans ih

/-- Of the dispositions only `Ack` acknowledges. -/
theorem acks_performed (i n : Nat) (topic : Topic) (message : Held) {d : Disposition} :
    ((b.log (.resolved i n)).performed topic message d).acks =
      b.acks ++ if d = .ack then [message] else [] := by
  have hlog : (b.log (.resolved i n)).acks = b.acks := acks_log_of_none b rfl
  cases d with
  | ack =>
      rw [performed, close, acks_log, hlog]
      rfl
  | requeue => exact hlog.trans (List.append_nil _).symm
  | deferred => exact hlog.trans (List.append_nil _).symm
  | reject => exact ((filing_acks b.acks).deadLetter trivial hlog).trans (List.append_nil _).symm

end

end Broker

open InMemoryTransport Broker

namespace System

/-- The action acknowledges the message. -/
def Acknowledges (s : System) (a : Action) (message : Held) : Prop :=
  ∃ i t, s.transports[i]? = some t ∧
    (a = .handlerReturns i (.returned .ack) ∧ t.handling = some message ∨
      ∃ tag, a = .settle i tag .ack ∧ t.outstanding[tag]? = some message)

theorem step_acks (s : System) (a : Action) : (s.step a).broker.acks = s.broker.acks ∨
    ∃ message, s.Acknowledges a message ∧
      (s.step a).broker.acks = s.broker.acks ++ [message] := by
  rcases s.step_writes a with hsame | ⟨i, t, ht, heffect⟩
  · exact .inl (by rw [hsame])
  · generalize (s.step a).broker = b' at heffect ⊢
    cases heffect with
    | declaredForensic topic options => exact .inl (acks_ensureTopic _ _ _)
    | declared topic options => exact .inl (acks_ensureTopic _ _ _)
    | published topic payload options =>
        exact .inl ((filing_acks s.broker.acks).publish (fun _ _ _ => trivial) rfl options.route)
    | purged topic => exact .inl (acks_purge topic _)
    | delivered state message rest =>
        exact .inl (acks_log_of_none (s.broker.write t.topic { state with messages := rest }) rfl)
    | handled message d hd hcallable hmessage =>
        rw [acks_performed]
        cases d with
        | ack => exact .inr ⟨message, ⟨i, t, ht, .inl ⟨rfl, hmessage⟩⟩, rfl⟩
        | _ => exact .inl (List.append_nil _)
    | settled tag message d hd hcallable hconnected hmessage =>
        rw [acks_performed]
        cases d with
        | ack => exact .inr ⟨message, ⟨i, t, ht, .inr ⟨tag, rfl, hmessage⟩⟩, rfl⟩
        | _ => exact .inl (List.append_nil _)
    | left => exact .inl (acks_putBackAll i t.topic _ _)

/-! ## Who was handed what -/

/-- Whatever a transport holds was delivered to it. -/
def HandedOut (s : System) : Prop :=
  ∀ i t message, s.transports[i]? = some t → t.Holds message →
    .delivered i t.topic message ∈ s.broker.history

theorem handedOut_init : HandedOut machine.init := by
  intro i t message ht
  exact absurd ht (by simp [machine])

/-- What the transports did stays written. -/
theorem Standing.history_step {s : System} (h : Standing s) (a : Action) :
    s.broker.history ⊆ (s.step a).broker.history := by
  have heffect := step_effect s a
  generalize s.step a = s' at heffect ⊢
  cases heffect with
  | nothing => exact List.Subset.refl _
  | created => exact List.Subset.refl _
  | @site i t t' b' haction hlookup hsite =>
      rcases hsite.history (h.tidy t (List.mem_of_getElem? hlookup)) with
        ⟨hsame, -⟩ | ⟨n, hmore, -⟩ | ⟨message, hmore, -⟩
      · rw [hsame]
        exact List.Subset.refl _
      · rw [hmore]
        exact List.subset_append_left _ _
      · rw [hmore]
        exact List.subset_append_left _ _

theorem HandedOut.step {s : System} (h : HandedOut s) (hstanding : Standing s) (a : Action) :
    HandedOut (s.step a) := by
  have hhistory := hstanding.history_step a
  have heffect := step_effect s a
  generalize s.step a = s' at hhistory heffect ⊢
  cases heffect with
  | nothing => exact h
  | created =>
      intro i t message ht hholds
      rcases lookup_created ht with ht | rfl
      · exact h i t message ht hholds
      · exact absurd hholds (not_holds_initial message)
  | @site i t t' b' haction hlookup hsite =>
      intro j u message hu hholds
      by_cases hij : i = j
      · subst hij
        obtain rfl := Option.some.inj ((lookup_set_self hlookup t').symm.trans hu)
        have htidy := hstanding.tidy t (List.mem_of_getElem? hlookup)
        obtain ⟨hkept, hheld | ⟨state, rest, hfind, hmessages, rfl⟩⟩ := hsite.holds htidy hholds
        · rw [hkept]
          exact hhistory (h i t message hlookup hheld)
        · rw [hkept, Broker.handedOut, history_log]
          exact List.mem_append_right _ (List.mem_singleton_self _)
      · rw [List.getElem?_set_ne hij] at hu
        exact hhistory (h j u message hu hholds)

end System

end Motus.InMemory
