import Motus.InMemory.Calls
import Motus.InMemory.Order

set_option autoImplicit false

/-!
# Settling

`ITransport::settle` is documented for deliveries that are held deferred.  A transport
keeps three kinds of deliveries in `_outstanding`: those whose handler is running,
those whose handler threw and those whose handler returned `Deferred`.  `settle` asks
only whether the tag is there.

`Watch` is the system together with the way each handler call ended, which the
transports themselves do not remember.
-/

namespace Motus.InMemory

open Motus.Foundation Motus.Transport InMemoryTransport

/-- A system that is watched. -/
structure Watch where
  system : System := {}
  /-- How the handler call of the last delivery under each tag of each transport ended,
  if it has. -/
  ended : Nat → Nat → Option HandlerOutcome := fun _ _ => none

namespace Watch

/-- The handler call of a delivery has ended so. -/
def note (w : Watch) (i tag : Nat) (ending : Option HandlerOutcome) :
    Nat → Nat → Option HandlerOutcome :=
  Function.update w.ended i (Function.update (w.ended i) tag ending)

/-- What is known of the handler calls after an action that led to `s`. -/
def endedAfter (w : Watch) (s : System) : Action → Nat → Nat → Option HandlerOutcome
  | .pump i =>
      match s.running i with
      | some message => w.note i message.sequence none
      | none => w.ended
  | .handlerReturns i outcome =>
      match w.system.running i, s.running i with
      | some message, none => w.note i message.sequence (some outcome)
      | _, _ => w.ended
  | _ => w.ended

/-- An action, and what it tells about the handler calls. -/
def step (w : Watch) (a : Action) : Watch :=
  ⟨w.system.step a, w.endedAfter (w.system.step a) a⟩

/-- The system, watched from its start. -/
def machine : Machine Watch Action where
  init := {}
  step := step

/-- The watched system runs like the system. -/
theorem runFrom_system (w : Watch) (actions : List Action) :
    (machine.runFrom w actions).system = System.machine.runFrom w.system actions := by
  induction actions generalizing w with
  | nil => rfl
  | cons a rest ih => exact ih (w.step a)

/-- Transport `i` has made a delivery under the tag and neither settled nor returned it
since. -/
def Unresolved (w : Watch) (i tag : Nat) : Prop := tag ∈ unresolvedBy i w.system.broker.history

/-- Its handler returned `Deferred`. -/
def Deferred (w : Watch) (i tag : Nat) : Prop :=
  w.Unresolved i tag ∧ w.ended i tag = some (.returned .deferred)

/-- Its handler is still running. -/
def InHandler (w : Watch) (i tag : Nat) : Prop := w.Unresolved i tag ∧ w.ended i tag = none

/-- Its handler threw. -/
def Abandoned (w : Watch) (i tag : Nat) : Prop :=
  w.Unresolved i tag ∧ ∃ what, w.ended i tag = some (.threw what)

/-- A final `settle` under the tag succeeds if and only if the delivery is held
deferred; otherwise it throws and changes nothing. -/
structure SettlesExactly (w : Watch) (i : Nat) (t : InMemoryTransport) (tag : Nat)
    (d : Disposition) : Prop where
  succeeds : w.Deferred i tag →
    (InMemoryTransport.settle tag d ⟨w.system.broker, t, i⟩).1 = .ok ()
  refuses : ¬ w.Deferred i tag → ∃ what,
    InMemoryTransport.settle tag d ⟨w.system.broker, t, i⟩ =
      (.error (.logicError what), ⟨w.system.broker, t, i⟩)

/-- The delivery under the tag is neither in its handler nor abandoned, and one that is
rejected has somewhere to go. -/
structure Settleable (w : Watch) (i : Nat) (t : InMemoryTransport) (tag : Nat)
    (d : Disposition) : Prop where
  left : ¬ w.InHandler i tag
  kept : ¬ w.Abandoned i tag
  forensic : w.Deferred i tag → d = .reject → w.system.broker.deadLetters t.topic = true →
    (w.system.broker.find (deadLetterTopic t.topic)).isSome = true

/-- A `settle` that is carried out is called for a delivery that may be settled. -/
def SettlesDeferred (w : Watch) (a : Action) : Prop :=
  ∀ i tag d t, a = .settle i tag d → d ≠ .deferred → w.system.transports[i]? = some t →
    t.callable = true → w.Settleable i t tag d

/-- Everything that is resolved was delivered and has not been resolved since. -/
def ResolvedOnce (history : List Entry) : Prop :=
  ∀ before after i n, history = before ++ .resolved i n :: after → n ∈ unresolvedBy i before

/-! ## What is known of the handler calls -/

/-- The handler calls are recorded as they end. -/
structure Recorded (w : Watch) : Prop where
  running : ∀ i t message, w.system.transports[i]? = some t → t.handling = some message →
    w.ended i message.sequence = none
  /-- a final disposition resolves the delivery -/
  decided : ∀ i t tag message d, w.system.transports[i]? = some t →
    t.outstanding[tag]? = some message → w.ended i tag = some (.returned d) → d = .deferred

section Ended

variable {w : Watch} {i tag : Nat}

theorem note_self (ending : Option HandlerOutcome) : w.note i tag ending i tag = ending := by
  rw [note, Function.update_self, Function.update_self]

theorem note_cases (ending : Option HandlerOutcome) (j n : Nat) :
    w.note j n ending i tag = w.ended i tag ∨
      i = j ∧ tag = n ∧ w.note j n ending i tag = ending := by
  by_cases hi : i = j
  · subst hi
    by_cases htag : tag = n
    · subst htag
      exact .inr ⟨rfl, rfl, note_self ending⟩
    · rw [note, Function.update_self, Function.update_of_ne htag]
      exact .inl rfl
  · rw [note, Function.update_of_ne hi]
    exact .inl rfl

/-- A delivery is made with its handler running. -/
theorem ended_pump {message : Held}
    (h : (w.system.step (.pump i)).running i = some message) :
    (w.step (.pump i)).ended i message.sequence = none := by
  simp only [step, endedAfter, h]
  exact note_self none

/-- What an action tells of the handler calls. -/
theorem ended_step (w : Watch) (a : Action) (i tag : Nat) :
    (w.step a).ended i tag = w.ended i tag ∨ (w.step a).ended i tag = none ∨
      ∃ outcome message, a = .handlerReturns i outcome ∧ w.system.running i = some message ∧
        (w.system.step a).running i = none ∧ message.sequence = tag ∧
        (w.step a).ended i tag = some outcome := by
  cases a with
  | pump j =>
      cases hrunning : (w.system.step (.pump j)).running j with
      | none =>
          refine .inl ?_
          simp only [step, endedAfter, hrunning]
      | some message =>
          simp only [step, endedAfter, hrunning]
          have hnoted : w.note j message.sequence none i tag = _ ∨ _ :=
            note_cases none j message.sequence
          rcases hnoted with hsame | ⟨-, -, hnone⟩
          · exact .inl hsame
          · exact .inr (.inl hnone)
  | handlerReturns j outcome =>
      cases hbefore : w.system.running j with
      | none =>
          refine .inl ?_
          simp only [step, endedAfter, hbefore]
      | some message =>
          cases hafter : (w.system.step (.handlerReturns j outcome)).running j with
          | some other =>
              refine .inl ?_
              simp only [step, endedAfter, hbefore, hafter]
          | none =>
              simp only [step, endedAfter, hbefore, hafter]
              have hnoted : w.note j message.sequence (some outcome) i tag = _ ∨ _ :=
                note_cases (some outcome) j message.sequence
              rcases hnoted with hsame | ⟨rfl, rfl, hended⟩
              · exact .inl hsame
              · exact .inr (.inr ⟨outcome, message, rfl, hbefore, hafter, rfl, hended⟩)
  | _ => exact .inl rfl

end Ended

theorem recorded_init : Recorded machine.init :=
  ⟨fun _ _ _ h => absurd h (by simp [machine]), fun _ _ _ _ _ h => absurd h (by simp [machine])⟩

theorem Recorded.step {w : Watch} (h : Recorded w) (a : Action) : Recorded (w.step a) := by
  refine ⟨fun i t' message ht' hmessage => ?_, fun i t' tag message d ht' hmessage hended => ?_⟩
  · change (w.system.step a).transports[i]? = some t' at ht'
    have hafter : (w.system.step a).running i = some message := by
      rw [System.running_of_lookup ht', hmessage]
    rcases w.system.step_call a ht' with ⟨-, rfl⟩ | ⟨t, ht, heffect⟩
    · exact absurd hmessage (by simp)
    rcases heffect.handling hmessage with hbefore | ⟨rfl, -⟩
    · rcases ended_step w a i message.sequence with
        hsame | hnone | ⟨outcome, m, -, -, hnot, -⟩
      · rw [hsame]
        exact h.running i t message ht hbefore
      · exact hnone
      · rw [hafter] at hnot
        exact absurd hnot (by simp)
    · exact ended_pump hafter
  · change (w.system.step a).transports[i]? = some t' at ht'
    rcases w.system.step_call a ht' with ⟨-, rfl⟩ | ⟨t, ht, heffect⟩
    · exact absurd hmessage (by simp)
    rcases heffect.outstanding hmessage with hbefore | ⟨rfl, hhandling, rfl⟩
    · rcases ended_step w a i tag with
        hsame | hnone | ⟨outcome, m, rfl, hrunning, hleft, rfl, houtcome⟩
      · exact h.decided i t tag message d ht hbefore (hsame ▸ hended)
      · rw [hnone] at hended
        exact absurd hended (by simp)
      · -- the handler of this delivery has just left
        rw [System.running_of_lookup ht] at hrunning
        rw [System.running_of_lookup ht'] at hleft
        obtain rfl := Option.some.inj (houtcome.symm.trans hended)
        cases heffect with
        | steady hsteady =>
            rw [hsteady.handling, hrunning] at hleft
            exact absurd hleft (by simp)
        | subscribed topic haction => exact absurd haction (by simp)
        | left haction => exact absurd haction (by simp)
        | delivered haction => exact absurd haction (by simp)
        | threw what m' haction => exact absurd haction (by simp)
        | deferred m' haction =>
            injection haction with _ houtcome'
            injection houtcome'
        | handled m' d' hd haction hcallable hm' =>
            obtain rfl := Option.some.inj (hm'.symm.trans hrunning)
            rw [counted_outstanding] at hmessage
            have herased : (t.outstanding.erase m'.sequence)[m'.sequence]? = some message := hmessage
            rw [getElem?_erase, if_pos rfl] at herased
            exact absurd herased (by simp)
        | settled n m' d' hd haction => exact absurd haction (by simp)
    · have hnone : (w.step (.pump i)).ended i message.sequence = none := by
        refine ended_pump ?_
        rw [System.running_of_lookup ht', hhandling]
      rw [hnone] at hended
      exact absurd hended (by simp)

/-- What holds in every state of every run. -/
structure Known (w : Watch) : Prop where
  standing : System.Standing w.system
  declarations : System.DeclarationsReady w.system
  backed : Broker.Backed w.system.broker
  attached : System.Attached w.system
  booked : System.Booked w.system
  recorded : Recorded w

theorem known_init : Known machine.init := by
  refine ⟨System.standing_init, System.declarationsReady_init, System.backed_init,
    System.attached_init, fun i n => ?_, recorded_init⟩
  simp [machine, Broker.history, unresolvedBy]

theorem Known.step {w : Watch} (h : Known w) (a : Action) : Known (w.step a) :=
  ⟨h.standing.step a, h.declarations.step h.standing a,
    h.standing.backed_step h.declarations h.backed a, h.attached.step a,
    h.booked.step h.standing a, h.recorded.step a⟩

theorem Known.unresolved_iff {w : Watch} (h : Known w) {i : Nat} {t : InMemoryTransport}
    (ht : w.system.transports[i]? = some t) (tag : Nat) :
    w.Unresolved i tag ↔ ∃ message, t.outstanding[tag]? = some message := by
  rw [Unresolved, h.booked i tag]
  constructor
  · rintro ⟨u, hu, hsome⟩
    obtain rfl := Option.some.inj (ht.symm.trans hu)
    exact Option.isSome_iff_exists.mp hsome
  · rintro ⟨message, hmessage⟩
    exact ⟨t, ht, by rw [hmessage, Option.isSome_some]⟩

/-! ## One `settle` -/

section Settle

variable {w : Watch} {i : Nat} {t : InMemoryTransport} {tag : Nat} {d : Disposition}

/-- When a disposition can be carried out. -/
theorem Known.performs_eq_ok_iff (h : Known w) (entry : Entry) (topic : Topic) (message : Held)
    (d : Disposition) : (w.system.broker.log entry).performs topic message d = .ok () ↔
      (d = .reject → w.system.broker.deadLetters topic = true →
        (w.system.broker.find (deadLetterTopic topic)).isSome = true) := by
  have hbacked : (w.system.broker.log entry).Backed :=
    h.backed.of_sameTopics (.of_find fun _ => rfl)
  exact Broker.performs_eq_ok_iff hbacked topic message d

/-- `settle` carries out whatever is outstanding, and takes it off the list. -/
theorem Known.settle_unresolved (h : Known w) (ht : w.system.transports[i]? = some t)
    (hd : d ≠ .deferred) (hopen : w.Unresolved i tag) :
    ∃ message t', InMemoryTransport.settle tag d ⟨w.system.broker, t, i⟩ =
        ((w.system.broker.log (.resolved i tag)).performs t.topic message d,
          ⟨(w.system.broker.log (.resolved i tag)).performed t.topic message d, t', i⟩) ∧
      t.outstanding[tag]? = some message ∧ t'.outstanding[tag]? = none := by
  obtain ⟨message, hmessage⟩ := (h.unresolved_iff ht tag).mp hopen
  have hconnected := h.attached i t ht (isEmpty_of_getElem? hmessage)
  refine ⟨message, _, settle_run i w.system.broker t hd hconnected hmessage, hmessage, ?_⟩
  rw [counted_outstanding]
  exact (getElem?_erase t.outstanding tag tag).trans (if_pos rfl)

/-- In every state that is reached `settle` behaves as documented for a tag exactly when
the delivery is neither in its handler nor abandoned, and can be rejected if it is to be. -/
theorem Known.settlesExactly_iff (h : Known w) (ht : w.system.transports[i]? = some t)
    (hd : d ≠ .deferred) : w.SettlesExactly i t tag d ↔ w.Settleable i t tag d := by
  constructor
  · intro hexact
    -- a delivery that is not deferred and yet outstanding is settled all the same
    have hopen : w.Unresolved i tag → w.Deferred i tag := by
      intro hunresolved
      by_contra hnot
      obtain ⟨what, hrefused⟩ := hexact.refuses hnot
      obtain ⟨message, t', hrun, hmessage, hnone⟩ := h.settle_unresolved ht hd hunresolved
      have hself : t' = t := congrArg (fun r => r.2.self) (hrun.symm.trans hrefused)
      rw [hself, hmessage] at hnone
      exact absurd hnone (by simp)
    refine ⟨fun hin => ?_, fun habandoned => ?_, fun hdeferred => ?_⟩
    · have hended := (hopen hin.1).2
      rw [hin.2] at hended
      exact absurd hended (by simp)
    · obtain ⟨hunresolved, what, hthrew⟩ := habandoned
      have hended := (hopen hunresolved).2
      rw [hthrew] at hended
      exact absurd hended (by simp)
    · obtain ⟨message, t', hrun, -, -⟩ := h.settle_unresolved ht hd hdeferred.1
      have hreturns := hexact.succeeds hdeferred
      rw [hrun] at hreturns
      exact (h.performs_eq_ok_iff _ _ _ _).mp hreturns
  · intro hcan
    refine ⟨fun hdeferred => ?_, fun hnot => ?_⟩
    · obtain ⟨message, t', hrun, -, -⟩ := h.settle_unresolved ht hd hdeferred.1
      rw [hrun]
      exact (h.performs_eq_ok_iff _ _ _ _).mpr (hcan.forensic hdeferred)
    · have hclosed : ¬ w.Unresolved i tag := by
        intro hunresolved
        cases hended : w.ended i tag with
        | none => exact hcan.left ⟨hunresolved, hended⟩
        | some outcome =>
            cases outcome with
            | threw what => exact hcan.kept ⟨hunresolved, what, hended⟩
            | returned d' =>
                obtain ⟨message, hmessage⟩ := (h.unresolved_iff ht tag).mp hunresolved
                obtain rfl := h.recorded.decided i t tag message d' ht hmessage hended
                exact hnot ⟨hunresolved, hended⟩
      refine settle_run_none i w.system.broker t hd fun _ => ?_
      cases hmessage : t.outstanding[tag]? with
      | none => rfl
      | some message => exact absurd ((h.unresolved_iff ht tag).mpr ⟨message, hmessage⟩) hclosed

end Settle

/-! ## No delivery is resolved twice -/

theorem ResolvedOnce.concat {history : List Entry} (h : ResolvedOnce history) (entry : Entry)
    (hentry : ∀ i n, entry = .resolved i n → n ∈ unresolvedBy i history) :
    ResolvedOnce (history ++ [entry]) := by
  intro before after i n heq
  rcases after.eq_nil_or_concat with rfl | ⟨after, last, rfl⟩
  · obtain ⟨rfl, hlast⟩ := List.append_inj' heq rfl
    exact hentry i n (List.singleton_inj.mp hlast)
  · rw [List.concat_eq_append, ← List.cons_append, ← List.append_assoc] at heq
    exact h before after i n (List.append_inj' heq rfl).1

/-- What a handler is running on is still outstanding. -/
def HandlerHolds (s : System) : Prop :=
  ∀ (i : Nat) (t : InMemoryTransport) message, s.transports[i]? = some t →
    t.handling = some message → t.outstanding[message.sequence]? = some message

/-- While only deferred deliveries are settled, a handler keeps its delivery. -/
theorem Known.handlerHolds_step {w : Watch} (h : Known w) (hholds : HandlerHolds w.system)
    {a : Action} (hguard : w.SettlesDeferred a) : HandlerHolds (w.system.step a) := by
  intro i t' message ht' hmessage
  rcases w.system.step_call a ht' with ⟨-, rfl⟩ | ⟨t, ht, heffect⟩
  · exact absurd hmessage (by simp)
  cases heffect with
  | steady hsteady =>
      rw [hsteady.outstanding]
      exact hholds i t message ht (hsteady.handling ▸ hmessage)
  | subscribed topic => exact hholds i t message ht hmessage
  | left haction hidle hgone =>
      have hnone : t.handling = none := by
        simpa [idle] using (Bool.and_eq_true_iff.mp hidle).2
      rw [hgone.handling, hnone] at hmessage
      exact absurd hmessage (by simp)
  | delivered haction hidle hconnected hhandler hempty state head rest =>
      obtain rfl : head = message := Option.some.inj hmessage
      exact (getElem?_insertIfNew_of_isEmpty hempty _ _ _).trans (if_pos rfl)
  | threw what m => exact absurd hmessage (by simp)
  | deferred m => exact absurd hmessage (by simp)
  | handled m d =>
      rw [counted_handling] at hmessage
      exact absurd hmessage (by simp)
  | settled tag m d hd haction hcallable hconnected hm =>
      -- the only delivery outstanding is the one in its handler, which may not be settled
      rw [counted_handling] at hmessage
      have hheld := hholds i t message ht hmessage
      have hlist := (h.standing.tidy t (List.mem_of_getElem? ht)).sole
      have htag := (hlist tag m hm).1.symm.trans (hlist _ message hheld).1
      obtain rfl : tag = message.sequence := congrArg Prod.fst (List.singleton_inj.mp htag)
      have hin : w.InHandler i message.sequence :=
        ⟨(h.unresolved_iff ht _).mpr ⟨m, hm⟩, h.recorded.running i t message ht hmessage⟩
      exact absurd hin (hguard i _ d t haction hd ht hcallable).left

theorem Known.resolvedOnce_step {w : Watch} (h : Known w) (hholds : HandlerHolds w.system)
    (honce : ResolvedOnce w.system.broker.history) (a : Action) :
    ResolvedOnce (w.system.step a).broker.history := by
  have heffect := w.system.step_effect a
  generalize w.system.step a = s' at heffect ⊢
  cases heffect with
  | nothing hback => exact honce
  | created haction => exact honce
  | @site i t t' b' haction hlookup hsite =>
      rcases hsite.history (h.standing.tidy t (List.mem_of_getElem? hlookup)) with
        ⟨hhistory, -⟩ | ⟨n, hhistory, -, hheld⟩ | ⟨message, hhistory, -⟩
      · rw [hhistory]
        exact honce
      · rw [hhistory]
        refine honce.concat _ fun j k heq => ?_
        obtain ⟨rfl, rfl⟩ := Entry.resolved.inj heq
        refine (h.unresolved_iff hlookup n).mpr ?_
        rcases hheld with hheld | ⟨message, hmessage, rfl⟩
        · exact Option.isSome_iff_exists.mp hheld
        · exact ⟨message, hholds i t message hlookup hmessage⟩
      · rw [hhistory]
        exact honce.concat _ fun j k heq => absurd heq (by simp)

/-- In every state of every run `settle` is exact for precisely the settleable tags, and
in the runs that settle only such tags no delivery is resolved twice. -/
theorem settlesExactly_iff_settleable (actions : List Action) :
    machine.Always (fun w => ∀ i t tag d, w.system.transports[i]? = some t → d ≠ .deferred →
        (w.SettlesExactly i t tag d ↔ w.Settleable i t tag d)) actions ∧
      (machine.Guarded SettlesDeferred actions →
        machine.Always (fun w => ResolvedOnce w.system.broker.history) actions) := by
  constructor
  · have halways : machine.Always Known actions :=
      .of_step actions (fun _ a h => h.step a) known_init
    exact halways.mono fun w h i t tag d ht hd => h.settlesExactly_iff ht hd
  · intro hguarded
    refine (Machine.AlwaysFrom.of_guarded
      (I := fun w => Known w ∧ HandlerHolds w.system ∧ ResolvedOnce w.system.broker.history)
      (fun w a hw hguard => ⟨hw.1.step a, hw.1.handlerHolds_step hw.2.1 hguard,
        hw.1.resolvedOnce_step hw.2.1 hw.2.2 a⟩) ⟨known_init, fun i t m ht => ?_, ?_⟩
      hguarded).mono fun w hw => hw.2.2
    · exact absurd ht (by simp [machine])
    · intro before after i n heq
      exact absurd heq (by simp [machine, Broker.history])

instance (w : Watch) (i tag : Nat) : Decidable (w.Unresolved i tag) :=
  inferInstanceAs (Decidable (tag ∈ unresolvedBy i w.system.broker.history))

instance (w : Watch) (i tag : Nat) : Decidable (w.Deferred i tag) :=
  inferInstanceAs (Decidable (_ ∧ _))

instance (w : Watch) (i tag : Nat) : Decidable (w.InHandler i tag) :=
  inferInstanceAs (Decidable (_ ∧ _))

/-- A transport takes a delivery. -/
def takenRun : List Action :=
  [.create, .connect 0, .ensureTopic 0 "jobs" {}, .ensureTopicSource 0, .subscribe 0 "jobs" true,
    .send 0 "jobs" [1] { durable := false }, .pump 0]

/-- Its handler defers the delivery. -/
def deferredRun : List Action := takenRun ++ [.handlerReturns 0 (.returned .deferred)]

/-- Its handler throws. -/
def abandonedRun : List Action := takenRun ++ [.handlerReturns 0 (.threw "crash")]

/-- Its handler settles the delivery and returns `Ack`. -/
def nestedRun : List Action :=
  takenRun ++ [.settle 0 1 .ack, .handlerReturns 0 (.returned .ack)]

theorem guarded_deferredRun : machine.Guarded SettlesDeferred (deferredRun ++ [.settle 0 1 .ack]) := by
  have hother : ∀ (w : Watch) (a : Action), (∀ i tag d, a ≠ .settle i tag d) →
      w.SettlesDeferred a := fun w a h i tag d t heq => absurd heq (h i tag d)
  refine ⟨hother _ _ (by simp), hother _ _ (by simp), hother _ _ (by simp), hother _ _ (by simp),
    hother _ _ (by simp), hother _ _ (by simp), hother _ _ (by simp), hother _ _ (by simp), ?_,
    trivial⟩
  intro i tag d t heq hd ht hcallable
  obtain ⟨rfl, rfl, rfl⟩ := Action.settle.inj heq
  refine ⟨by decide +kernel, fun habandoned => ?_, fun _ hreject => absurd hreject (by simp)⟩
  obtain ⟨-, what, hthrew⟩ := habandoned
  have hended : (machine.run deferredRun).ended 0 1 = some (.returned .deferred) := by
    decide +kernel
  exact absurd (hended.symm.trans hthrew) (by simp)

theorem settlesExactly_iff_settleable_deferredRun :
    (∃ t, (machine.run deferredRun).system.transports[0]? = some t ∧
      ((machine.run deferredRun).SettlesExactly 0 t 1 .ack ↔
        (machine.run deferredRun).Settleable 0 t 1 .ack)) ∧
      machine.Always (fun w => ResolvedOnce w.system.broker.history)
        (deferredRun ++ [.settle 0 1 .ack]) := by
  refine ⟨?_, (settlesExactly_iff_settleable _).2 guarded_deferredRun⟩
  have hone : ((machine.run deferredRun).system.transports[0]?).isSome = true := by
    decide +kernel
  obtain ⟨t, ht⟩ := Option.isSome_iff_exists.mp hone
  exact ⟨t, ht, (settlesExactly_iff_settleable deferredRun).1.last 0 t 1 .ack ht (by simp)⟩

/-- A delivery whose handler threw is acknowledged, and one that its handler settled is
resolved again when the handler returns. -/
theorem settles_abandonedRun :
    (∃ t, (machine.run abandonedRun).system.transports[0]? = some t ∧
      ¬ (machine.run abandonedRun).Deferred 0 1 ∧
      ¬ (machine.run abandonedRun).SettlesExactly 0 t 1 .ack) ∧
      ¬ ResolvedOnce (machine.run nestedRun).system.broker.history := by
  constructor
  · have hrun : ((machine.run abandonedRun).system.transports[0]?).map (fun t =>
        (InMemoryTransport.settle 1 .ack ⟨(machine.run abandonedRun).system.broker, t, 0⟩).1) =
          some (.ok ()) := by decide +kernel
    obtain ⟨t, ht, hsettled⟩ := Option.map_eq_some_iff.mp hrun
    have hnot : ¬ (machine.run abandonedRun).Deferred 0 1 := by decide +kernel
    refine ⟨t, ht, hnot, fun hexact => ?_⟩
    obtain ⟨what, hrefused⟩ := hexact.refuses hnot
    rw [hrefused] at hsettled
    exact absurd hsettled (by simp)
  · intro honce
    have hopen := honce [.delivered 0 "jobs" { sequence := 1, body := [1], copy := 1 },
      .resolved 0 1] [] 0 1 (by decide +kernel)
    exact absurd hopen (by decide)

end Watch

end Motus.InMemory
