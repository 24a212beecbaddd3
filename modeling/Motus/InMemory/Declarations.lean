import Motus.InMemory.Redeclaration

set_option autoImplicit false

/-!
# Many declarations in any order

Several transports declare their topics at start-up, each `ensureTopic` in two calls
on the broker.  What the broker holds afterwards is the set of those calls, so no
order and no interleaving of them makes a difference, as long as no two of them
contradict each other.
-/

namespace Motus.InMemory

open Motus.Foundation Motus.Transport

/-- A topic and the options it is declared with. -/
abbrev Declaration : Type := Topic × TopicOptions

namespace Declaration

/-- What `ensureTopic` asks of the broker first, for a topic that dead-letters. -/
def forensic (d : Declaration) : List Declaration :=
  if d.2.deadLetter then [(deadLetterTopic d.1, forensicTopicOptions d.1)] else []

/-- The calls on the broker that an `ensureTopic` makes, in order. -/
def brokerCalls (d : Declaration) : List Declaration := d.forensic ++ [d]

/-- The topic is no forensic destination, and the group is not theirs. -/
structure Unreserved (d : Declaration) : Prop where
  topic : ∀ source, d.1 ≠ deadLetterTopic source
  group : d.2.group ≠ kDeadLetterExchange

end Declaration

/-- Each topic always with the same options, each group always with the same routing. -/
structure Consistent (calls : Set Declaration) : Prop where
  options : ∀ topic options options', (topic, options) ∈ calls → (topic, options') ∈ calls →
    options = options'
  routing : ∀ c ∈ calls, ∀ c' ∈ calls, c.2.group ≠ "" → c.2.group = c'.2.group →
    c.2.routing = c'.2.routing

namespace Broker

/-- The broker holds what these calls declare, and nothing else. -/
structure Holds (b : Broker) (calls : Set Declaration) : Prop where
  topics : ∀ topic state, b.find topic = some state ↔
    ∃ options, (topic, options) ∈ calls ∧ state = declared topic options
  groups : ∀ (group : String) (routing : Routing), b.groups[group]? = some routing ↔
    group ≠ "" ∧ ∃ c ∈ calls, c.2.group = group ∧ c.2.routing = routing

/-- The calls determine every topic and every group. -/
theorem Holds.agree {b b' : Broker} {calls : Set Declaration} (h : Holds b calls)
    (h' : Holds b' calls) :
    (∀ topic, b.find topic = b'.find topic) ∧
      ∀ group : String, b.groups[group]? = b'.groups[group]? :=
  ⟨fun topic => Option.ext fun state => (h.topics topic state).trans (h'.topics topic state).symm,
    fun group => Option.ext fun routing =>
      (h.groups group routing).trans (h'.groups group routing).symm⟩

section Calls

variable {b : Broker} {calls : Set Declaration} {topic : Topic} {options : TopicOptions}

/-- A call that contradicts none of the earlier ones finds its group as it asks. -/
theorem Holds.groupAgrees (h : Holds b calls)
    (hconsistent : Consistent (insert (topic, options) calls)) : GroupAgrees b options := by
  by_cases hgroup : options.group = ""
  · exact .inl hgroup
  · refine .inr fun routing hrouting => ?_
    obtain ⟨-, c, hc, hsame, rfl⟩ := (h.groups _ _).mp hrouting
    exact (hconsistent.routing _ (Set.mem_insert _ _) c (Set.mem_insert_of_mem _ hc) hgroup
      hsame.symm).symm

/-- Such a call returns. -/
theorem Holds.ensureTopic_ok (h : Holds b calls)
    (hconsistent : Consistent (insert (topic, options) calls)) :
    (ensureTopic topic options b).1 = .ok () := by
  have hagrees := h.groupAgrees hconsistent
  cases hfind : b.find topic with
  | none => exact ensureTopic_eq_ok_of_none hfind ((ensureGroup_eq_ok_iff b options).mpr hagrees)
  | some state =>
      obtain ⟨stored, hstored, rfl⟩ := (h.topics _ _).mp hfind
      have hsame : options = stored := hconsistent.options topic _ _ (Set.mem_insert _ _)
        (Set.mem_insert_of_mem _ hstored)
      refine (ensureTopic_eq_ok_iff hfind options).mpr ⟨hagrees, ?_⟩
      rw [hsame]
      exact agrees_self stored

/-- It adds what it declares. -/
theorem Holds.ensureTopic (h : Holds b calls)
    (hconsistent : Consistent (insert (topic, options) calls)) :
    Holds (ensureTopic topic options b).2 (insert (topic, options) calls) := by
  have hok := h.ensureTopic_ok hconsistent
  have hgroupOk : (ensureGroup options b).1 = .ok () := ensureGroup_of_ensureTopic (.inl hok)
  have hself : (Broker.ensureTopic topic options b).2.find topic =
      some (declared topic options) := by
    rw [find_ensureTopic hok]
    cases hfind : b.find topic with
    | none => rfl
    | some state =>
        obtain ⟨stored, hstored, rfl⟩ := (h.topics _ _).mp hfind
        rw [Option.getD_some, hconsistent.options topic _ _ (Set.mem_insert _ _)
          (Set.mem_insert_of_mem _ hstored)]
  refine ⟨fun t state => ?_, fun group routing => ?_⟩
  · by_cases heq : topic = t
    · subst heq
      rw [hself]
      constructor
      · exact fun hstate => ⟨options, Set.mem_insert _ _, (Option.some.inj hstate).symm⟩
      · rintro ⟨stored, hstored, rfl⟩
        rw [hconsistent.options topic _ _ (Set.mem_insert _ _) hstored]
    · rw [find_ensureTopic_of_ne b heq, h.topics]
      constructor
      · rintro ⟨stored, hstored, hstate⟩
        exact ⟨stored, Set.mem_insert_of_mem _ hstored, hstate⟩
      · rintro ⟨stored, hstored, hstate⟩
        rcases Set.mem_insert_iff.mp hstored with hnew | hstored
        · exact absurd (congrArg Prod.fst hnew).symm heq
        · exact ⟨stored, hstored, hstate⟩
  · rw [groups_ensureTopic]
    constructor
    · intro hafter
      rcases groups_ensureGroup hafter with hbefore | ⟨hgroup, rfl, rfl⟩
      · obtain ⟨hne, c, hc, hsame⟩ := (h.groups _ _).mp hbefore
        exact ⟨hne, c, Set.mem_insert_of_mem _ hc, hsame⟩
      · exact ⟨hgroup, _, Set.mem_insert _ _, rfl, rfl⟩
    · rintro ⟨hne, c, hc, rfl, rfl⟩
      rcases Set.mem_insert_iff.mp hc with rfl | hc
      · exact ensureGroup_declares hgroupOk hne
      · exact keepsGroups_ensureGroup options b _ _ ((h.groups _ _).mpr ⟨hne, c, hc, rfl, rfl⟩)

/-- A call that was made already changes nothing. -/
theorem Holds.ensureTopic_again (h : Holds b calls) (hmem : (topic, options) ∈ calls) :
    Broker.ensureTopic topic options b = (.ok (), b) := by
  have hfind : b.find topic = some (declared topic options) :=
    (h.topics _ _).mpr ⟨options, hmem, rfl⟩
  have hgroup : ensureGroup options b = (.ok (), b) := by
    simp only [ensureGroup, Exec.get_bind]
    split
    · rfl
    · next hgroup =>
        rw [(h.groups _ _).mpr ⟨hgroup, _, hmem, rfl, rfl⟩]
        simp
  rw [Broker.ensureTopic, Exec.bind_ok hgroup]
  have hagrees : agrees (declared topic options).options options = true := agrees_self options
  simp only [Exec.get_bind, hfind]
  rw [if_pos hagrees]
  rfl

end Calls

end Broker

open Broker InMemoryTransport

/-! ## Interleavings -/

/-- The steps that transport `i` takes to declare a topic. -/
def Declaration.steps (i : Nat) (d : Declaration) : List Action :=
  [.ensureTopic i d.1 d.2, .ensureTopicSource i]

/-- The steps of all transports in some order, the steps of each in its own order. -/
structure Interleaves (programs : Nat → List Declaration) (actions : List Action) : Prop where
  taken : ∀ a ∈ actions, a.transport ≠ none
  each : ∀ i, actions.filter (fun a => a.transport = some i) =
    (programs i).flatMap (Declaration.steps i)

/-- All calls on the broker that these declarations make. -/
def allCalls (declarations : Set Declaration) : Set Declaration :=
  {c | ∃ d ∈ declarations, c ∈ d.brokerCalls}

/-- Declarations that do not contradict each other make calls that do not. -/
theorem Consistent.allCalls {declarations : Set Declaration} (h : Consistent declarations)
    (hfree : ∀ d ∈ declarations, d.Unreserved) : Consistent (allCalls declarations) := by
  have hcases : ∀ c ∈ Motus.InMemory.allCalls declarations, c ∈ declarations ∨
      ∃ d ∈ declarations, c = (deadLetterTopic d.1, forensicTopicOptions d.1) := by
    rintro c ⟨d, hd, hc⟩
    rcases List.mem_append.mp hc with hforensic | hsource
    · refine .inr ⟨d, hd, ?_⟩
      unfold Declaration.forensic at hforensic
      split at hforensic
      · exact List.mem_singleton.mp hforensic
      · exact absurd hforensic (by simp)
    · exact .inl (List.mem_singleton.mp hsource ▸ hd)
  refine ⟨fun topic options options' ho ho' => ?_, fun c hc c' hc' hgroup hsame => ?_⟩
  · rcases hcases _ ho with ho | ⟨d, hd, heq⟩ <;> rcases hcases _ ho' with ho' | ⟨d', hd', heq'⟩
    · exact h.options topic options options' ho ho'
    · exact absurd (congrArg Prod.fst heq') ((hfree _ ho).topic d'.1)
    · exact absurd (congrArg Prod.fst heq) ((hfree _ ho').topic d.1)
    · obtain ⟨htopic, rfl⟩ := Prod.mk.inj heq
      obtain ⟨htopic', rfl⟩ := Prod.mk.inj heq'
      rw [deadLetterTopic_injective (htopic.symm.trans htopic')]
  · rcases hcases _ hc with hc | ⟨d, hd, rfl⟩ <;> rcases hcases _ hc' with hc' | ⟨d', hd', rfl⟩
    · exact h.routing c hc c' hc' hgroup hsame
    · exact absurd hsame (hfree c hc).group
    · exact absurd hsame.symm (hfree c' hc').group
    · rfl

theorem Consistent.mono {calls calls' : Set Declaration} (h : Consistent calls)
    (hsub : calls' ⊆ calls) : Consistent calls' :=
  ⟨fun topic options options' ho ho' => h.options topic options options' (hsub ho) (hsub ho'),
    fun c hc c' hc' => h.routing c (hsub hc) c' (hsub hc')⟩

theorem union_call (calls : Set Declaration) (c : Declaration) :
    calls ∪ {x | x ∈ [c]} = insert c calls := by
  ext x
  simp [or_comm]

/-- The first half of `ensureTopic` makes the calls that it owes the forensic destination. -/
theorem Broker.Holds.forensic {b : Broker} {calls : Set Declaration} {d : Declaration}
    (h : Holds b calls) (hconsistent : Consistent (calls ∪ {c | c ∈ d.forensic}))
    {t : InMemoryTransport} (hconnected : t.connected = true) (i : Nat) :
    ∃ b', ensureTopicForensic d.1 d.2 ⟨b, t, i⟩ = (.ok (), ⟨b', t, i⟩) ∧
      Holds b' (calls ∪ {c | c ∈ d.forensic}) := by
  unfold Declaration.forensic at hconsistent ⊢
  simp only [ensureTopicForensic, Exec.get_bind]
  rw [if_neg (by simp [hconnected])]
  cases hdead : d.2.deadLetter with
  | false =>
      refine ⟨b, rfl, ?_⟩
      rw [if_neg Bool.false_ne_true, show {c : Declaration | c ∈ []} = ∅ by simp, Set.union_empty]
      exact h
  | true =>
      rw [hdead, if_pos rfl] at hconsistent
      rw [if_pos rfl, if_pos rfl]
      rw [union_call] at hconsistent ⊢
      refine ⟨_, ?_, h.ensureTopic hconsistent⟩
      rw [onBroker_apply, h.ensureTopic_ok hconsistent]

/-- An `ensureTopic` all of whose calls were made already changes nothing. -/
theorem Broker.Holds.declares_again {b : Broker} {calls : Set Declaration} {d : Declaration}
    (h : Holds b calls) (hmade : ∀ c ∈ d.brokerCalls, c ∈ calls) {t : InMemoryTransport}
    (hconnected : t.connected = true) (i : Nat) :
    InMemoryTransport.ensureTopic d.1 d.2 ⟨b, t, i⟩ = (.ok (), ⟨b, t, i⟩) := by
  have hsource := h.ensureTopic_again (hmade d (List.mem_append_right _ List.mem_cons_self))
  have hforensic : ensureTopicForensic d.1 d.2 ⟨b, t, i⟩ = (.ok (), ⟨b, t, i⟩) := by
    simp only [ensureTopicForensic, Exec.get_bind]
    rw [if_neg (by simp [hconnected])]
    split
    · next hdead =>
        rw [onBroker_apply, h.ensureTopic_again (hmade _ ?_)]
        rw [Declaration.brokerCalls, Declaration.forensic, if_pos hdead]
        exact List.mem_cons_self
    · rfl
  rw [InMemoryTransport.ensureTopic, Exec.bind_ok hforensic, ensureTopicSource, onBroker_apply,
    hsource]

namespace System

/-- The step is a declaration that is carried out and returns. -/
def Accepts (s : System) : Action → Prop
  | .ensureTopic i topic options => ∃ t, s.transports[i]? = some t ∧ t.callable = true ∧
      (ensureTopicForensic topic options ⟨s.broker, t, i⟩).1 = .ok ()
  | .ensureTopicSource i => ∃ t topic options, s.transports[i]? = some t ∧
      t.destroyed = false ∧ t.declaring = some (topic, options) ∧
      (ensureTopicSource topic options ⟨s.broker, t, i⟩).1 = .ok ()
  | _ => False

/-- The declaration that transport `i` is in the middle of. -/
def pending (s : System) (i : Nat) : List Declaration :=
  ((s.transports[i]?).bind (·.declaring)).toList

/-- Transport `i` is connected and can go on with what it does. -/
def Connected (s : System) (i : Nat) : Prop :=
  ∃ t, s.transports[i]? = some t ∧ t.connected = true ∧ t.destroyed = false

/-- Declarations under way: the calls made so far are in the broker, and each transport
still has to finish the declaration it is in and to make those of its program. -/
structure Declaring (calls : Set Declaration) (programs : Nat → List Declaration)
    (s : System) (actions : List Action) : Prop where
  holds : Holds s.broker calls
  taken : ∀ a ∈ actions, a.transport ≠ none
  each : ∀ i, actions.filter (fun a => a.transport = some i) =
    (s.pending i).map (fun _ => Action.ensureTopicSource i) ++
      (programs i).flatMap (Declaration.steps i)
  connected : ∀ i, s.pending i ≠ [] ∨ programs i ≠ [] → s.Connected i

/-- The calls that transport `i` still has to make. -/
def todo (programs : Nat → List Declaration) (s : System) (i : Nat) : List Declaration :=
  s.pending i ++ (programs i).flatMap Declaration.brokerCalls

/-- The calls made so far and those that are still to come. -/
def total (calls : Set Declaration) (programs : Nat → List Declaration) (s : System) :
    Set Declaration :=
  calls ∪ {c | ∃ i, c ∈ todo programs s i}

section Step

variable {calls : Set Declaration} {programs : Nat → List Declaration} {s : System} {i : Nat}
  {t t' : InMemoryTransport} {b : Broker}

theorem pending_of_lookup (hlookup : s.transports[i]? = some t) :
    s.pending i = t.declaring.toList := by
  rw [pending, hlookup, Option.bind_some]

theorem pending_set_self (hlookup : s.transports[i]? = some t) :
    pending ⟨b, s.transports.set i t'⟩ i = t'.declaring.toList :=
  pending_of_lookup (by
    rw [List.getElem?_set_self (List.getElem?_eq_some_iff.mp hlookup).1])

theorem pending_set_of_ne {j : Nat} (hne : i ≠ j) :
    pending ⟨b, s.transports.set i t'⟩ j = s.pending j := by
  rw [pending, pending, List.getElem?_set_ne hne]

theorem Connected.set {j : Nat} (h : s.Connected j) (hlookup : s.transports[i]? = some t)
    (hconnected : t'.connected = t.connected) (hdestroyed : t'.destroyed = t.destroyed) :
    Connected ⟨b, s.transports.set i t'⟩ j := by
  obtain ⟨u, hu, hon, halive⟩ := h
  by_cases heq : i = j
  · subst heq
    obtain rfl := Option.some.inj (hlookup.symm.trans hu)
    refine ⟨t', ?_, hconnected.trans hon, hdestroyed.trans halive⟩
    rw [List.getElem?_set_self (List.getElem?_eq_some_iff.mp hlookup).1]
  · exact ⟨u, by rw [List.getElem?_set_ne heq, hu], hon, halive⟩

/-- A transport that makes its next calls moves them from what is to come to what was
made. -/
theorem total_eq (made : List Declaration) {programs' : Nat → List Declaration} {s' : System}
    (hself : todo programs s i = made ++ todo programs' s' i)
    (hothers : ∀ j, j ≠ i → todo programs' s' j = todo programs s j) :
    total (calls ∪ {c | c ∈ made}) programs' s' = total calls programs s := by
  ext c
  constructor
  · rintro ((hcall | hmade) | ⟨j, hj⟩)
    · exact .inl hcall
    · exact .inr ⟨i, hself ▸ List.mem_append_left _ hmade⟩
    · by_cases heq : j = i
      · subst heq
        exact .inr ⟨j, hself ▸ List.mem_append_right _ hj⟩
      · exact .inr ⟨j, hothers j heq ▸ hj⟩
  · rintro (hcall | ⟨j, hj⟩)
    · exact .inl (.inl hcall)
    · by_cases heq : j = i
      · subst heq
        rw [hself] at hj
        rcases List.mem_append.mp hj with hmade | hj
        · exact .inl (.inr hmade)
        · exact .inr ⟨j, hj⟩
      · exact .inr ⟨j, (hothers j heq).symm ▸ hj⟩

/-- The first half of a declaration returns, and leaves the second half to come. -/
theorem begin_step {d : Declaration} (h : Holds s.broker calls)
    (hconsistent : Consistent (calls ∪ {c | c ∈ d.forensic}))
    (hlookup : s.transports[i]? = some t) (hon : t.connected = true)
    (hcallable : t.callable = true) :
    Accepts s (.ensureTopic i d.1 d.2) ∧ ∃ b, Holds b (calls ∪ {c | c ∈ d.forensic}) ∧
      s.step (.ensureTopic i d.1 d.2) =
        ⟨b, s.transports.set i { t with declaring := some d }⟩ := by
  obtain ⟨b, hrun, hholds⟩ := h.forensic hconsistent hon i
  refine ⟨⟨t, hlookup, hcallable, by rw [hrun]⟩, b, hholds, ?_⟩
  simp only [step]
  rw [call_of_may _ hlookup hcallable, beginEnsureTopic, Exec.bind_ok hrun]
  rfl

/-- The second half returns, and leaves nothing to come. -/
theorem end_step {d : Declaration} (h : Holds s.broker calls)
    (hconsistent : Consistent (calls ∪ {c | c ∈ [d]}))
    (hlookup : s.transports[i]? = some t) (halive : t.destroyed = false)
    (hdeclaring : t.declaring = some d) :
    Accepts s (.ensureTopicSource i) ∧ ∃ b, Holds b (calls ∪ {c | c ∈ [d]}) ∧
      s.step (.ensureTopicSource i) = ⟨b, s.transports.set i { t with declaring := none }⟩ := by
  rw [union_call] at hconsistent ⊢
  have hok := h.ensureTopic_ok hconsistent
  refine ⟨⟨t, d.1, d.2, hlookup, halive, hdeclaring, hok⟩, _, h.ensureTopic hconsistent, ?_⟩
  simp only [step]
  rw [call_of_may _ hlookup (by simp [halive])]
  simp only [endEnsureTopic, Exec.get_bind, hdeclaring, setSelf_bind, ensureTopicSource,
    onBroker_apply]

/-- One step of one transport returns and brings its declarations forward. -/
theorem Declaring.step {a : Action} {actions : List Action}
    (h : Declaring calls programs s (a :: actions))
    (hconsistent : Consistent (total calls programs s)) :
    Accepts s a ∧ ∃ calls' programs', Declaring calls' programs' (s.step a) actions ∧
      total calls' programs' (s.step a) = total calls programs s := by
  obtain ⟨i, hi⟩ := Option.ne_none_iff_exists'.mp (h.taken a List.mem_cons_self)
  have hself := h.each i
  rw [List.filter_cons_of_pos (by simp [hi])] at hself
  have hothers : ∀ j, j ≠ i → actions.filter (fun a => a.transport = some j) =
      (s.pending j).map (fun _ => Action.ensureTopicSource j) ++
        (programs j).flatMap (Declaration.steps j) := by
    intro j hj
    have heach := h.each j
    rwa [List.filter_cons_of_neg (by simpa [hi] using Ne.symm hj)] at heach
  have htaken : ∀ b ∈ actions, b.transport ≠ none :=
    fun b hb => h.taken b (List.mem_cons_of_mem a hb)
  cases hpending : s.pending i with
  | nil =>
      cases hprogram : programs i with
      | nil =>
          rw [hpending, hprogram] at hself
          exact absurd hself (by simp)
      | cons d rest =>
          rw [hpending, hprogram] at hself
          obtain ⟨rfl, hafter⟩ := List.cons.inj hself
          obtain ⟨t, hlookup, hon, halive⟩ := h.connected i (.inr (by simp [hprogram]))
          have hidle : t.declaring = none := by
            rwa [pending_of_lookup hlookup, Option.toList_eq_nil_iff] at hpending
          have hsub : calls ∪ {c | c ∈ d.forensic} ⊆ total calls programs s := by
            refine Set.union_subset_union_right calls fun c hc => ⟨i, ?_⟩
            rw [todo, hpending, hprogram, List.flatMap_cons, Declaration.brokerCalls,
              List.nil_append]
            exact List.mem_append_left _ (List.mem_append_left _ hc)
          obtain ⟨haccepts, b, hholds, hstep⟩ := begin_step h.holds (hconsistent.mono hsub)
            hlookup hon (by simp [callable, halive, hidle])
          refine ⟨haccepts, _, Function.update programs i rest, ?_,
            total_eq (i := i) d.forensic ?_ ?_⟩
          · rw [hstep]
            refine ⟨hholds, htaken, fun j => ?_, fun j hj => ?_⟩
            · by_cases heq : j = i
              · subst heq
                rw [pending_set_self hlookup, Function.update_self, hafter]
                rfl
              · rw [pending_set_of_ne (Ne.symm heq), Function.update_of_ne heq, hothers j heq]
            · refine Connected.set ?_ hlookup rfl rfl
              by_cases heq : j = i
              · exact heq ▸ ⟨t, hlookup, hon, halive⟩
              · rw [pending_set_of_ne (Ne.symm heq), Function.update_of_ne heq] at hj
                exact h.connected j hj
          · rw [hstep, todo, todo, pending_set_self hlookup, Function.update_self, hpending,
              hprogram, List.flatMap_cons, Declaration.brokerCalls, List.append_assoc]
            rfl
          · intro j hj
            rw [hstep, todo, todo, pending_set_of_ne (Ne.symm hj), Function.update_of_ne hj]
  | cons d others =>
      obtain ⟨t, hlookup, hon, halive⟩ := h.connected i (.inl (by simp [hpending]))
      have hdeclaring : t.declaring = some d ∧ others = [] := by
        rw [pending_of_lookup hlookup] at hpending
        cases hd : t.declaring with
        | none => exact absurd hpending (by simp [hd])
        | some d' =>
            rw [hd] at hpending
            obtain ⟨rfl, hnil⟩ := List.cons.inj hpending
            exact ⟨rfl, hnil.symm⟩
      obtain ⟨hd, rfl⟩ := hdeclaring
      rw [hpending] at hself
      obtain ⟨rfl, hafter⟩ := List.cons.inj hself
      have hsub : calls ∪ {c | c ∈ [d]} ⊆ total calls programs s := by
        refine Set.union_subset_union_right calls fun c hc => ⟨i, ?_⟩
        rw [todo, hpending]
        exact List.mem_append_left _ hc
      obtain ⟨haccepts, b, hholds, hstep⟩ :=
        end_step h.holds (hconsistent.mono hsub) hlookup halive hd
      refine ⟨haccepts, _, programs, ?_, total_eq (i := i) [d] ?_ ?_⟩
      · rw [hstep]
        refine ⟨hholds, htaken, fun j => ?_, fun j hj => ?_⟩
        · by_cases heq : j = i
          · subst heq
            rw [pending_set_self hlookup, hafter]
            rfl
          · rw [pending_set_of_ne (Ne.symm heq), hothers j heq]
        · refine Connected.set ?_ hlookup rfl rfl
          by_cases heq : j = i
          · exact heq ▸ ⟨t, hlookup, hon, halive⟩
          · rw [pending_set_of_ne (Ne.symm heq)] at hj
            exact h.connected j hj
      · rw [hstep, todo, todo, pending_set_self hlookup, hpending]
        rfl
      · intro j hj
        rw [hstep, todo, todo, pending_set_of_ne (Ne.symm hj)]

/-- All steps return, and every declaration is made in the end. -/
theorem Declaring.run {actions : List Action} (h : Declaring calls programs s actions)
    (hconsistent : Consistent (total calls programs s)) :
    machine.GuardedFrom Accepts s actions ∧
      Holds (machine.runFrom s actions).broker (total calls programs s) := by
  induction actions generalizing calls programs s with
  | nil =>
      refine ⟨trivial, ?_⟩
      have hdone : total calls programs s = calls := by
        refine Set.union_eq_left.mpr ?_
        rintro c ⟨i, hc⟩
        obtain ⟨hpending, hprogram⟩ := List.append_eq_nil_iff.mp (h.each i).symm
        rw [todo, List.map_eq_nil_iff.mp hpending] at hc
        obtain ⟨d, hd, -⟩ := List.mem_flatMap.mp hc
        have hsteps := List.flatMap_eq_nil_iff.mp hprogram d hd
        exact absurd hsteps (by simp [Declaration.steps])
      rw [hdone]
      exact h.holds
  | cons a rest ih =>
      obtain ⟨haccepts, calls', programs', hnext, htotal⟩ := h.step hconsistent
      obtain ⟨hguarded, hholds⟩ := ih hnext (htotal ▸ hconsistent)
      exact ⟨⟨haccepts, hguarded⟩, htotal ▸ hholds⟩

end Step

/-- From an empty broker, connected transports make these declarations, each those of its
program, in some interleaving of their steps. -/
structure StartUp (declarations : Set Declaration) (programs : Nat → List Declaration)
    (s : System) (actions : List Action) : Prop where
  topics : ∀ topic, s.broker.find topic = none
  groups : ∀ group : String, s.broker.groups[group]? = none
  connected : ∀ i, programs i ≠ [] → s.Connected i
  idle : ∀ i, s.pending i = []
  declares : ∀ d, d ∈ declarations ↔ ∃ i, d ∈ programs i
  interleaves : Interleaves programs actions

theorem StartUp.declaring {declarations : Set Declaration} {programs : Nat → List Declaration}
    {s : System} {actions : List Action} (h : StartUp declarations programs s actions) :
    Declaring ∅ programs s actions := by
  refine ⟨⟨fun topic state => ?_, fun group routing => ?_⟩, h.interleaves.taken, fun i => ?_,
    fun i hi => ?_⟩
  · rw [h.topics]
    simp
  · rw [h.groups]
    simp
  · rw [h.idle, h.interleaves.each]
    rfl
  · exact h.connected i (hi.resolve_left fun hpending => hpending (h.idle i))

/-- What is to come at the start are the calls of all declarations. -/
theorem StartUp.total_eq {declarations : Set Declaration} {programs : Nat → List Declaration}
    {s : System} {actions : List Action} (h : StartUp declarations programs s actions) :
    total ∅ programs s = allCalls declarations := by
  ext c
  simp only [total, todo, h.idle, List.nil_append, Set.empty_union, Set.mem_ofPred_eq,
    List.mem_flatMap, allCalls, h.declares]
  constructor
  · rintro ⟨i, d, hd, hc⟩
    exact ⟨d, ⟨i, hd⟩, hc⟩
  · rintro ⟨d, ⟨i, hd⟩, hc⟩
    exact ⟨i, d, hd, hc⟩

/-- A start-up whose declarations do not contradict each other succeeds in every
interleaving: every step returns, the broker ends with exactly what the declarations
ask for, repeating one of them changes nothing, and any two start-ups with the same
declarations end alike. -/
theorem startUp_holds {declarations : Set Declaration} (hconsistent : Consistent declarations)
    (hfree : ∀ d ∈ declarations, d.Unreserved) :
    (∀ s programs actions, StartUp declarations programs s actions →
      machine.GuardedFrom Accepts s actions ∧
      Holds (machine.runFrom s actions).broker (allCalls declarations) ∧
      ∀ d ∈ declarations, ∀ t i, t.connected = true →
        InMemoryTransport.ensureTopic d.1 d.2 ⟨(machine.runFrom s actions).broker, t, i⟩ =
          (.ok (), ⟨(machine.runFrom s actions).broker, t, i⟩)) ∧
    ∀ s programs actions s' programs' actions', StartUp declarations programs s actions →
      StartUp declarations programs' s' actions' →
      (∀ topic, (machine.runFrom s actions).broker.find topic =
        (machine.runFrom s' actions').broker.find topic) ∧
      ∀ group : String, (machine.runFrom s actions).broker.groups[group]? =
        (machine.runFrom s' actions').broker.groups[group]? := by
  have hcalls := hconsistent.allCalls hfree
  have hrun : ∀ s programs actions, StartUp declarations programs s actions →
      machine.GuardedFrom Accepts s actions ∧
        Holds (machine.runFrom s actions).broker (allCalls declarations) := by
    intro s programs actions h
    have hdone := h.declaring.run (h.total_eq ▸ hcalls)
    rwa [h.total_eq] at hdone
  refine ⟨fun s programs actions h => ?_, fun s programs actions s' programs' actions' h h' =>
    (hrun _ _ _ h).2.agree (hrun _ _ _ h').2⟩
  obtain ⟨hguarded, hholds⟩ := hrun _ _ _ h
  exact ⟨hguarded, hholds, fun d hd t i hon =>
    hholds.declares_again (fun c hc => ⟨d, hd, hc⟩) hon i⟩

/-- Two workers and a producer that share a group. -/
def sharedJobs : TopicOptions := { group := "work", route := "job.#" }

/-- A destination of the same group that does not dead-letter. -/
def sharedMail : TopicOptions := { group := "work", route := "mail.*", deadLetter := false }

/-- What each of the two transports declares. -/
def sharedPrograms : Nat → List Declaration
  | 0 => [("jobs", sharedJobs)]
  | 1 => [("jobs", sharedJobs), ("mail", sharedMail)]
  | _ => []

/-- Both are between the two halves of their first declaration at the same time. -/
def sharedActions : List Action :=
  [.ensureTopic 0 "jobs" sharedJobs, .ensureTopic 1 "jobs" sharedJobs, .ensureTopicSource 1,
   .ensureTopic 1 "mail" sharedMail, .ensureTopicSource 0, .ensureTopicSource 1]

theorem sharedActions_startUp : StartUp {d | ∃ i, d ∈ sharedPrograms i} sharedPrograms
    ⟨{}, [{ connected := true }, { connected := true }]⟩ sharedActions := by
  refine ⟨fun topic => by simp [find], fun group => by simp, fun i hi => ?_, fun i => ?_,
    fun d => Iff.rfl, by decide, fun i => ?_⟩
  · rcases i with _ | _ | i
    · exact ⟨_, rfl, rfl, rfl⟩
    · exact ⟨_, rfl, rfl, rfl⟩
    · exact absurd rfl hi
  · rcases i with _ | _ | i <;> rfl
  · rcases i with _ | _ | i
    · rfl
    · rfl
    · simp [sharedActions, sharedPrograms, Action.transport]

theorem startUp_holds_sharedActions :
    (machine.runFrom ⟨{}, [{ connected := true }, { connected := true }]⟩
      sharedActions).broker.find "jobs" = some (declared "jobs" sharedJobs) := by
  have hcases : ∀ d ∈ {d | ∃ i, d ∈ sharedPrograms i},
      d = ("jobs", sharedJobs) ∨ d = ("mail", sharedMail) := by
    rintro d ⟨i, hi⟩
    rcases i with _ | _ | i
    · exact .inl (List.mem_singleton.mp hi)
    · simpa [sharedPrograms] using hi
    · exact absurd hi (by simp [sharedPrograms])
  have hconsistent : Consistent {d | ∃ i, d ∈ sharedPrograms i} := by
    refine ⟨fun topic options options' ho ho' => ?_, fun c hc c' hc' _ _ => ?_⟩
    · rcases hcases _ ho with ho | ho <;> rcases hcases _ ho' with ho' | ho' <;> simp_all
    · rcases hcases _ hc with rfl | rfl <;> rcases hcases _ hc' with rfl | rfl <;> rfl
  have hfree : ∀ d ∈ {d | ∃ i, d ∈ sharedPrograms i}, d.Unreserved := by
    intro d hd
    have hlength : ∀ source : Topic, 18 ≤ (deadLetterTopic source).length := by
      intro source
      have hprefix : kDeadLetterPrefix.length = 18 := by decide
      simp only [deadLetterTopic, String.length_append]
      omega
    rcases hcases d hd with rfl | rfl
    · exact ⟨fun source heq => absurd (heq ▸ hlength source) (by decide), by decide⟩
    · exact ⟨fun source heq => absurd (heq ▸ hlength source) (by decide), by decide⟩
  refine (((startUp_holds hconsistent hfree).1 _ _ _ sharedActions_startUp).2.1.topics
    "jobs" _).mpr ⟨sharedJobs, ⟨("jobs", sharedJobs), ⟨0, List.mem_singleton.mpr rfl⟩, ?_⟩, rfl⟩
  exact List.mem_append_right _ List.mem_cons_self

end System

end Motus.InMemory
