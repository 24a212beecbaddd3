import Motus.Consumer.Deeds
import Motus.InMemory.Provenance

set_option autoImplicit false

/-!
# What the handlers receive

From one end of the system to the other: a handler is called with the message that its
publisher serialized, sent to a topic that leads to the consumer's, and the body of a
published message is never refused before a handler sees it.

The log of a run has a note for each call of a handler and for each decision.  `Logged`
says of every note where its body came from, by `Motus.InMemory.Provenance`, and what
became of it, by the wire format.
-/

namespace Motus.Consumer

open Motus.Foundation Motus.Transport Motus.InMemory InMemoryTransport Broker
open Motus.InMemory.System (CameFrom Traced)

/-- The call sends nothing. -/
def Silent (b : Action) : Prop := ∀ i target body options, b ≠ .send i target body options

theorem silent_of_declares {b : Action} (h : declares b = true) : Silent b := by
  rintro i target body options rfl
  exact absurd h Bool.false_ne_true

theorem published_of_silent {b : Action} (h : Silent b) (s : System) : s.published b = none := by
  cases b with
  | send i target body options => exact absurd rfl (h i target body options)
  | _ => rfl

/-- A call that sends nothing is not needed to trace anything. -/
theorem traced_runFrom {sent : List (Topic × Bytes)} (calls : List Action) {s : System}
    (h : Traced sent s) (hsilent : ∀ b ∈ calls, Silent b) :
    Traced sent (System.machine.runFrom s calls) := by
  induction calls generalizing s with
  | nil => exact h
  | cons b rest ih =>
      refine ih ?_ fun b hb => hsilent b (List.mem_cons_of_mem _ hb)
      have hstep := h.step b
      rwa [published_of_silent (hsilent b List.mem_cons_self), Option.toList_none,
        List.append_nil] at hstep

/-- The handler ended nothing exactly where the body decodes to no message. -/
def Reads (body : Bytes) (ending : Option HandlerEnd) : Prop :=
  ending = none ↔ ∀ decoded, decode body ≠ .ok decoded

namespace Workers

/-- Where a send goes that no Consumer makes and that reaches the broker, and its body. -/
def published (w : Workers) : Work → Option (Topic × Bytes)
  | .call b => if w.mayCall b = true then w.system.published b else none
  | _ => none

/-- The sends among the work that reach the broker. -/
def allPublished : Workers → List Work → List (Topic × Bytes)
  | _, [] => []
  | w, a :: rest => (w.published a).toList ++ allPublished (machine.step w a) rest

/-- What the log of a run has to say about the bodies. -/
structure Logged (sent : List (Topic × Bytes)) (w : Workers) : Prop where
  traced : Traced sent w.system
  called : ∀ topic message, .called topic message ∈ w.log →
    CameFrom sent w.system topic message.body ∧
      ∃ decoded, decode message.body = .ok decoded
  concluded : ∀ topic message ending d, .concluded topic message ending d ∈ w.log →
    CameFrom sent w.system topic message.body ∧ Reads message.body ending ∧
      (ending = none → d = .reject)

theorem logged_init : Logged [] machine.init :=
  ⟨System.traced_init, fun _ _ hmem => absurd hmem List.not_mem_nil,
    fun _ _ _ _ hmem => absurd hmem List.not_mem_nil⟩

section Logged

variable {sent : List (Topic × Bytes)} {w : Workers}

/-- The step lemma. -/
theorem Logged.step (h : Logged sent w) (a : Work) :
    Logged (sent ++ (w.published a).toList) (w.step a) := by
  have hextends : w.system.broker.Extends (w.step a).system.broker :=
    (system_step (P := fun s => System.Standing s ∧ w.system.broker.Extends s.broker)
      (fun s b hs => ⟨hs.1.step b, fun t o ht => hs.1.extends b t o (hs.2 t o ht)⟩) a
      ⟨h.traced.standing, .refl _⟩).2
  obtain ⟨calls, notes, hdeed, hsystem, hlog⟩ := w.step_deed a
  have hsent : sent ⊆ sent ++ (w.published a).toList := List.subset_append_left _ _
  have hlater : ∀ topic body, CameFrom sent w.system topic body →
      CameFrom (sent ++ (w.published a).toList) (w.step a).system topic body :=
    fun topic body hcame => hcame.mono hsent hextends
  have hsilent : (∀ b ∈ calls, Silent b) →
      Traced (sent ++ (w.published a).toList) (w.step a).system := by
    intro hcalls
    rw [hsystem]
    exact (traced_runFrom calls h.traced hcalls).mono hsent
  -- what the notes that are added say is all that is left to show
  have hnotes : Traced (sent ++ (w.published a).toList) (w.step a).system →
      (∀ topic message, .called topic message ∈ notes →
        CameFrom sent w.system topic message.body ∧
          ∃ decoded, decode message.body = .ok decoded) →
      (∀ topic message ending d, .concluded topic message ending d ∈ notes →
        CameFrom sent w.system topic message.body ∧ Reads message.body ending ∧
          (ending = none → d = .reject)) → Logged (sent ++ (w.published a).toList) (w.step a) := by
    intro htraced hcalled hconcluded
    refine ⟨htraced, fun topic message hmem => ?_, fun topic message ending d hmem => ?_⟩
    · rw [hlog, List.mem_append] at hmem
      obtain ⟨hcame, hdecodes⟩ := hmem.elim (h.called topic message) (hcalled topic message)
      exact ⟨hlater _ _ hcame, hdecodes⟩
    · rw [hlog, List.mem_append] at hmem
      obtain ⟨hcame, hreads⟩ := hmem.elim (h.concluded topic message ending d)
        (hconcluded topic message ending d)
      exact ⟨hlater _ _ hcame, hreads⟩
  have hnone : Traced (sent ++ (w.published a).toList) (w.step a).system → notes = [] →
      Logged (sent ++ (w.published a).toList) (w.step a) := by
    rintro htraced rfl
    exact hnotes htraced (fun _ _ hmem => absurd hmem List.not_mem_nil)
      fun _ _ _ _ hmem => absurd hmem List.not_mem_nil
  cases hdeed with
  | apart => exact hnone (hsilent fun _ hb => absurd hb List.not_mem_nil) rfl
  | @outside b hmay =>
      refine hnone ?_ rfl
      rw [hsystem, published, if_pos hmay]
      exact h.traced.step b
  | declared hc hcalls => exact hnone (hsilent fun b hb => silent_of_declares (hcalls b hb).1) rfl
  | settled hc ht hphase => exact hnone (hsilent (by simp [Silent])) rfl
  | escaped hc ht hmessage hconcludes => exact hnone (hsilent (by simp [Silent])) rfl
  | @delivered i c t state message rest hc ht hempty hfind hmessages hstep =>
      refine hnotes (hsilent (by simp [Silent])) (fun topic m hmem => ?_)
        fun topic m ending d hmem => ?_
      · unfold begun at hmem
        cases hbody : ByteMessage.deserialize message.body with
        | error e =>
            rw [hbody] at hmem
            exact absurd hmem List.not_mem_nil
        | ok decoded =>
            rw [hbody] at hmem
            obtain ⟨rfl, rfl⟩ := Note.called.inj (List.mem_singleton.mp hmem)
            refine ⟨h.traced.waiting.messages hfind m ?_, decoded, decode_eq_ok_iff.mpr hbody⟩
            rw [hmessages]
            exact List.mem_cons_self
      · unfold begun at hmem
        split at hmem
        · exact absurd (List.mem_singleton.mp hmem) (by simp)
        · exact absurd hmem List.not_mem_nil
  | @concluded i ending c t message d hc ht hcallable hmessage hconcludes =>
      refine hnotes (hsilent (by simp [Silent])) (fun topic m hmem => ?_)
        fun topic m ending' d' hmem => ?_
      · exact absurd (List.mem_singleton.mp hmem) (by simp)
      · obtain ⟨rfl, rfl, rfl, rfl⟩ := Note.concluded.inj (List.mem_singleton.mp hmem)
        refine ⟨h.traced.held t (List.mem_of_getElem? ht) m (.inl hmessage),
          calledWith_eq_none_iff, fun hnone => ?_⟩
        cases hbody : ByteMessage.deserialize m.body with
        | error e => exact (Except.ok.inj ((concludes_error hbody).symm.trans hconcludes)).symm
        | ok decoded =>
            exact absurd (decode_eq_ok_iff.mpr hbody) (calledWith_eq_none_iff.mp hnone decoded)

/-- The run lemma. -/
theorem Logged.runFrom {works : List Work} (h : Logged sent w) :
    Logged (sent ++ allPublished w works) (machine.runFrom w works) := by
  induction works generalizing w sent with
  | nil => rwa [allPublished, List.append_nil]
  | cons a rest ih =>
      have hnext := ih (h.step a)
      rwa [List.append_assoc] at hnext

end Logged

/-- What the Consumers have received. -/
structure Received (sent : List (Topic × Bytes)) (w : Workers) : Prop where
  /-- a handler is called with a body that was sent to where the Consumer takes it from,
  and with the message that its sender serialized -/
  called : ∀ topic message, .called topic message ∈ w.log →
    CameFrom sent w.system topic message.body ∧
      ∃ decoded, decode message.body = .ok decoded ∧
        ∀ published, ByteMessage.serialize published = .ok message.body → decoded = published
  /-- what is rejected before any handler is called is no message that was serialized -/
  refused : ∀ topic message d, .concluded topic message none d ∈ w.log →
    CameFrom sent w.system topic message.body ∧ d = .reject ∧
      ∀ published, ByteMessage.serialize published ≠ .ok message.body

/-- In every run of any number of Consumers, senders and closes, a handler is called only
with messages that were published where its topic takes them from, each just as its
publisher serialized it; and no such message is rejected without being handed over. -/
theorem handlers_receive_what_was_published (works : List Work) :
    Received (allPublished machine.init works) (machine.run works) := by
  have hlogged : Logged (allPublished machine.init works) (machine.run works) :=
    logged_init.runFrom
  refine ⟨fun topic message hmem => ?_, fun topic message d hmem => ?_⟩
  · obtain ⟨hcame, decoded, hdecoded⟩ := hlogged.called topic message hmem
    refine ⟨hcame, decoded, hdecoded, fun published hpublished => ?_⟩
    have hread := ByteMessage.deserialize_of_isEnvelope
      (ByteMessage.isEnvelope_serialize hpublished)
    exact Except.ok.inj ((decode_eq_ok_iff.mp hdecoded).symm.trans hread)
  · obtain ⟨hcame, hreads, hrejected⟩ := hlogged.concluded topic message none d hmem
    refine ⟨hcame, hrejected rfl, fun published hpublished => ?_⟩
    have hread := ByteMessage.deserialize_of_isEnvelope
      (ByteMessage.isEnvelope_serialize hpublished)
    exact hreads.mp rfl published (decode_eq_ok_iff.mpr hread)

end Workers

end Motus.Consumer
