import Motus.InMemory.Accounting

set_option autoImplicit false

/-!
# The recursion of `enqueueLocked` and `deadLetterLocked`

The two functions of the source call each other with no bound in sight.  `Enqueues`
and `DeadLetters` are their calls as finite derivations, one rule for each way
through the body, with the list of the calls that were made.  Names along a chain
of forensic destinations only grow, and the broker has finitely many topics, so
every call has a derivation, and it is the run that the fuel of `enqueueLocked`
computes.
-/

namespace Motus.InMemory

open Motus.Foundation Motus.Transport

/-! ## Calls -/

/-- A call of one of the two functions. -/
inductive Call where
  | enqueueLocked (topic : Topic)
  | deadLetterLocked (source : Topic)
  deriving DecidableEq, Repr

namespace Call

/-- The only call that a call can make. -/
def next : Call → Call
  | .enqueueLocked topic => .deadLetterLocked topic
  | .deadLetterLocked source => .enqueueLocked (deadLetterTopic source)

/-- How far along the chains of forensic destinations a call is. -/
def rank : Call → Nat
  | .enqueueLocked topic => 2 * topic.length
  | .deadLetterLocked source => 2 * source.length + 1

theorem rank_lt_next (call : Call) : call.rank < call.next.rank := by
  cases call with
  | enqueueLocked topic => exact Nat.lt_succ_self _
  | deadLetterLocked source =>
      have hlength := length_lt_deadLetterTopic source
      simp only [next, rank]
      omega

/-- The calls that may come after a call, the nearest first. -/
def after (call : Call) (n : Nat) : List Call := List.iterate next call.next n

theorem rank_lt_of_mem_after {call call' : Call} {n : Nat} (h : call' ∈ call.after n) :
    call.rank < call'.rank := by
  induction n generalizing call with
  | zero => exact absurd h (by simp [after])
  | succ n ih =>
      rw [after, List.iterate, List.mem_cons] at h
      rcases h with rfl | h
      · exact call.rank_lt_next
      · exact call.rank_lt_next.trans (ih h)

theorem not_mem_after (call : Call) (n : Nat) : call ∉ call.after n :=
  fun h => absurd (rank_lt_of_mem_after h) (Nat.lt_irrefl _)

/-- No call comes twice along a chain. -/
theorem nodup_cons_after (call : Call) (n : Nat) : (call :: call.after n).Nodup := by
  induction n generalizing call with
  | zero => exact List.nodup_singleton call
  | succ n ih => exact List.nodup_cons.mpr ⟨call.not_mem_after _, ih call.next⟩

end Call

namespace Broker

/-! ## The two functions as derivations -/

mutual

/-- A call of `enqueueLocked` on a topic that exists: the calls it makes, the first of
which is itself, what comes of it, and the broker it leaves. -/
inductive Enqueues : Topic → Held → Broker → List Call → Except Exn Bool → Broker → Prop where
  | room {topic : Topic} {message : Held} {b : Broker} {state : TopicState}
      (hfind : b.find topic = some state) (hroom : state.full = false) :
      Enqueues topic message b [.enqueueLocked topic] (.ok true) (b.pushBack topic message)
  | refused {topic : Topic} {message : Held} {b : Broker} {state : TopicState}
      (hfind : b.find topic = some state) (hfull : state.full = true)
      (hpolicy : state.options.overflow = .rejectPublish ∨
        state.options.overflow = .rejectPublishDlx ∧ state.options.deadLetter = false) :
      Enqueues topic message b [.enqueueLocked topic] (.ok false)
        (b.close message (.refused topic state.messages.length))
  | rejected {topic : Topic} {message : Held} {b b' : Broker} {state : TopicState}
      {calls : List Call} {r : Except Exn Unit} (hfind : b.find topic = some state)
      (hfull : state.full = true) (hpolicy : state.options.overflow = .rejectPublishDlx)
      (hdead : state.options.deadLetter = true) (h : DeadLetters topic message b calls r b') :
      Enqueues topic message b (.enqueueLocked topic :: calls) (r.map fun _ => false) b'
  | dropped {topic : Topic} {message evicted : Held} {b : Broker} {state : TopicState}
      {rest : List Held} (hfind : b.find topic = some state) (hfull : state.full = true)
      (hpolicy : state.options.overflow = .dropHead) (hdead : state.options.deadLetter = false)
      (hmessages : state.messages = evicted :: rest) :
      Enqueues topic message b [.enqueueLocked topic] (.ok true)
        (((b.write topic { state with messages := rest }).close evicted
          (.evicted topic)).pushBack topic message)
  | evicted {topic : Topic} {message evicted : Held} {b b' : Broker} {state : TopicState}
      {rest : List Held} {calls : List Call} (hfind : b.find topic = some state)
      (hfull : state.full = true) (hpolicy : state.options.overflow = .dropHead)
      (hdead : state.options.deadLetter = true) (hmessages : state.messages = evicted :: rest)
      (h : DeadLetters topic evicted (b.write topic { state with messages := rest }) calls
        (.ok ()) b') :
      Enqueues topic message b (.enqueueLocked topic :: calls) (.ok true)
        (b'.pushBack topic message)
  | threw {topic : Topic} {message evicted : Held} {b b' : Broker} {state : TopicState}
      {rest : List Held} {calls : List Call} {e : Exn} (hfind : b.find topic = some state)
      (hfull : state.full = true) (hpolicy : state.options.overflow = .dropHead)
      (hdead : state.options.deadLetter = true) (hmessages : state.messages = evicted :: rest)
      (h : DeadLetters topic evicted (b.write topic { state with messages := rest }) calls
        (.error e) b') :
      Enqueues topic message b (.enqueueLocked topic :: calls) (.error e) b'

/-- A call of `deadLetterLocked`, likewise. -/
inductive DeadLetters : Topic → Held → Broker → List Call → Except Exn Unit → Broker → Prop where
  | closed {source : Topic} {message : Held} {b : Broker} (h : b.deadLetters source = false) :
      DeadLetters source message b [.deadLetterLocked source] (.ok ())
        (b.close message (.rejected source))
  | missing {source : Topic} {message : Held} {b : Broker} (h : b.deadLetters source = true)
      (hforensic : b.find (deadLetterTopic source) = none) :
      DeadLetters source message b [.deadLetterLocked source]
        (.error (.logicError ("dead-letter destination '" ++ deadLetterTopic source ++
          "' was not provisioned with source '" ++ source ++ "'"))) b
  | forwarded {source : Topic} {message : Held} {b b' : Broker} {calls : List Call}
      {r : Except Exn Bool} (h : b.deadLetters source = true)
      (hforensic : (b.find (deadLetterTopic source)).isSome = true)
      (henqueue : Enqueues (deadLetterTopic source) (b.renumbered message)
        (b.deadLettered source message) calls r b') :
      DeadLetters source message b (.deadLetterLocked source :: calls) (r.map fun _ => ()) b'

end

/-! ### What a derivation says -/

/-- The calls climb one chain from the first of them, and no topic changes but those
that `enqueueLocked` is called with. -/
structure Climbs (first : Call) (calls : List Call) (b b' : Broker) : Prop where
  calls_eq : ∃ n, calls = first :: first.after n
  unvisited : ∀ t, .enqueueLocked t ∉ calls → b'.find t = b.find t
  groups : b'.groups = b.groups

theorem Climbs.single {first : Call} {b b' : Broker}
    (hfind : ∀ t, .enqueueLocked t ≠ first → b'.find t = b.find t) (hgroups : b'.groups = b.groups) :
    Climbs first [first] b b' :=
  ⟨⟨0, rfl⟩, fun t ht => hfind t fun heq => ht (List.mem_singleton.mpr heq), hgroups⟩

/-- One call more, before a chain that starts at the next one. -/
theorem climbs_cons (first : Call) {calls : List Call} {b c c' b' : Broker}
    (h : Climbs first.next calls c c')
    (hbefore : ∀ t, .enqueueLocked t ≠ first → c.find t = b.find t)
    (hafter : ∀ t, .enqueueLocked t ≠ first → b'.find t = c'.find t)
    (hgroups : c.groups = b.groups) (hgroups' : b'.groups = c'.groups) :
    Climbs first (first :: calls) b b' := by
  obtain ⟨n, hcalls⟩ := h.calls_eq
  refine ⟨⟨n + 1, by rw [hcalls]; rfl⟩, fun t ht => ?_, hgroups'.trans (h.groups.trans hgroups)⟩
  rw [List.mem_cons, not_or] at ht
  rw [hafter t ht.1, h.unvisited t ht.2, hbefore t ht.1]

/-- A chain never comes back to where it started from. -/
theorem not_mem_of_climbs (call : Call) {calls : List Call} {b b' : Broker}
    (h : Climbs call.next calls b b') : call ∉ calls := by
  obtain ⟨n, rfl⟩ := h.calls_eq
  exact call.not_mem_after (n + 1)

theorem find_pushBack_of_ne (b : Broker) {topic t : Topic} (h : topic ≠ t) (message : Held) :
    (b.pushBack topic message).find t = b.find t := by
  rw [find_pushBack, if_neg h]

/-- A call changes no other queue than its own by itself. -/
theorem ne_of_call_ne {topic t : Topic} (h : Call.enqueueLocked t ≠ .enqueueLocked topic) :
    topic ≠ t := fun heq => h (heq ▸ rfl)

mutual

theorem Enqueues.climbs {topic : Topic} {message : Held} {b b' : Broker} {calls : List Call}
    {r : Except Exn Bool} (h : Enqueues topic message b calls r b') :
    Climbs (.enqueueLocked topic) calls b b' := by
  cases h with
  | room hfind hroom =>
      exact .single (fun t ht => find_pushBack_of_ne b (ne_of_call_ne ht) message) rfl
  | refused hfind hfull hpolicy => exact .single (fun t ht => rfl) rfl
  | rejected hfind hfull hpolicy hdead h =>
      exact climbs_cons (.enqueueLocked topic) h.climbs (fun t ht => rfl) (fun t ht => rfl) rfl rfl
  | dropped hfind hfull hpolicy hdead hmessages =>
      refine .single (fun t ht => ?_) rfl
      rw [find_pushBack_of_ne _ (ne_of_call_ne ht), find_close,
        find_write_of_ne _ (ne_of_call_ne ht)]
  | evicted hfind hfull hpolicy hdead hmessages h =>
      exact climbs_cons (.enqueueLocked topic) h.climbs
        (fun t ht => find_write_of_ne b (ne_of_call_ne ht) _)
        (fun t ht => find_pushBack_of_ne _ (ne_of_call_ne ht) message) rfl rfl
  | threw hfind hfull hpolicy hdead hmessages h =>
      exact climbs_cons (.enqueueLocked topic) h.climbs
        (fun t ht => find_write_of_ne b (ne_of_call_ne ht) _) (fun t ht => rfl) rfl rfl

theorem DeadLetters.climbs {source : Topic} {message : Held} {b b' : Broker} {calls : List Call}
    {r : Except Exn Unit} (h : DeadLetters source message b calls r b') :
    Climbs (.deadLetterLocked source) calls b b' := by
  cases h with
  | closed h => exact .single (fun t ht => rfl) rfl
  | missing h hforensic => exact .single (fun t ht => rfl) rfl
  | forwarded h hforensic henqueue =>
      exact climbs_cons (.deadLetterLocked source) henqueue.climbs (fun t ht => rfl)
        (fun t ht => rfl) rfl rfl

end

/-! ### How many messages wait -/

theorem card_waiting_pushBack {b : Broker} {topic : Topic} {state : TopicState}
    (hfind : b.find topic = some state) (message : Held) :
    (b.pushBack topic message).waiting.card = b.waiting.card + 1 := by
  obtain ⟨rest, hwaiting, hafter⟩ := waiting_write hfind
  have hpush : (b.pushBack topic message).waiting =
      (state.messages ++ [message] : List Held) + rest := by
    rw [← hafter { state with messages := state.messages ++ [message] }, pushBack, hfind,
      Option.getD_some]
    rfl
  rw [hpush, hwaiting, Multiset.card_add, Multiset.card_add, Multiset.coe_card, Multiset.coe_card,
    List.length_append, List.length_singleton]
  omega

theorem card_waiting_pop {b : Broker} {topic : Topic} {state : TopicState} {message : Held}
    {rest : List Held} (hfind : b.find topic = some state)
    (hmessages : state.messages = message :: rest) :
    b.waiting.card = (b.write topic { state with messages := rest }).waiting.card + 1 := by
  obtain ⟨others, hwaiting, hafter⟩ := waiting_write hfind
  have hrest : (b.write topic { state with messages := rest }).waiting = rest + others :=
    hafter { state with messages := rest }
  rw [hwaiting, hrest, hmessages, Multiset.card_add, Multiset.card_add, Multiset.coe_card,
    Multiset.coe_card, List.length_cons]
  omega

mutual

/-- A call of `enqueueLocked` that returns leaves at most one message more. -/
theorem Enqueues.card_le {topic : Topic} {message : Held} {b b' : Broker} {calls : List Call}
    {r : Except Exn Bool} (h : Enqueues topic message b calls r b') {stored : Bool}
    (hok : r = .ok stored) : b'.waiting.card ≤ b.waiting.card + 1 := by
  cases h with
  | room hfind hroom => exact (card_waiting_pushBack hfind message).le
  | refused hfind hfull hpolicy => exact Nat.le_succ _
  | rejected hfind hfull hpolicy hdead h =>
      obtain ⟨u, hu⟩ := Exec.ok_of_map_ok hok
      exact h.card_le hu
  | @dropped _ _ evicted _ state rest hfind hfull hpolicy hdead hmessages =>
      have hpop := card_waiting_pop hfind hmessages
      have hself := find_write_self b topic { state with messages := rest }
      have hpush := card_waiting_pushBack ((find_close _ evicted (.evicted topic) _).trans hself)
        message
      exact hpush.le.trans (by rw [hpop]; exact Nat.le_succ _)
  | @evicted _ _ _ _ c state rest _ hfind hfull hpolicy hdead hmessages h =>
      have hpop := card_waiting_pop hfind hmessages
      have hself : c.find topic = some { state with messages := rest } :=
        (h.climbs.unvisited topic (not_mem_of_climbs (.enqueueLocked topic) h.climbs)).trans
          (find_write_self b topic _)
      have hrest := h.card_le rfl
      rw [card_waiting_pushBack hself]
      omega
  | threw => exact absurd hok (by simp)

/-- And so does one of `deadLetterLocked`. -/
theorem DeadLetters.card_le {source : Topic} {message : Held} {b b' : Broker} {calls : List Call}
    {r : Except Exn Unit} (h : DeadLetters source message b calls r b') {u : Unit}
    (hok : r = .ok u) : b'.waiting.card ≤ b.waiting.card + 1 := by
  cases h with
  | closed h => exact Nat.le_succ _
  | missing h hforensic => exact absurd hok (by simp)
  | forwarded h hforensic henqueue =>
      obtain ⟨stored, hstored⟩ := Exec.ok_of_map_ok hok
      exact henqueue.card_le hstored

end

/-! ### The derivations and the fuel -/

mutual

/-- With one unit of fuel for every two calls `enqueueLocked` runs as derived. -/
theorem Enqueues.eq {topic : Topic} {message : Held} {b b' : Broker} {calls : List Call}
    {r : Except Exn Bool} (h : Enqueues topic message b calls r b') (fuel : Nat)
    (hfuel : calls.length ≤ 2 * fuel) : enqueueLocked fuel topic message b = (r, b') := by
  have hpos : 0 < calls.length := by cases h <;> exact Nat.succ_pos _
  obtain ⟨fuel, rfl⟩ : ∃ n, fuel = n + 1 := ⟨fuel - 1, by omega⟩
  cases h with
  | room hfind hroom => exact enqueueLocked_room hfind hroom fuel message
  | refused hfind hfull hpolicy => exact enqueueLocked_refused hfind hfull hpolicy fuel message
  | rejected hfind hfull hpolicy hdead h =>
      have hrest := h.eq fuel (by rw [List.length_cons] at hfuel; omega)
      rw [enqueueLocked_dlx hfind hfull hpolicy hdead, hrest]
  | dropped hfind hfull hpolicy hdead hmessages =>
      rw [enqueueLocked_dropHead hfind hfull hpolicy hmessages, hdead, if_neg Bool.false_ne_true]
  | evicted hfind hfull hpolicy hdead hmessages h =>
      have hrest := h.eq fuel (by rw [List.length_cons] at hfuel; omega)
      rw [enqueueLocked_dropHead hfind hfull hpolicy hmessages, if_pos hdead, hrest]
  | threw hfind hfull hpolicy hdead hmessages h =>
      have hrest := h.eq fuel (by rw [List.length_cons] at hfuel; omega)
      rw [enqueueLocked_dropHead hfind hfull hpolicy hmessages, if_pos hdead, hrest]

theorem DeadLetters.eq {source : Topic} {message : Held} {b b' : Broker} {calls : List Call}
    {r : Except Exn Unit} (h : DeadLetters source message b calls r b') (fuel : Nat)
    (hfuel : calls.length ≤ 2 * fuel + 1) :
    deadLetterVia (enqueueLocked fuel) source message b = (r, b') := by
  cases h with
  | closed h => exact deadLetterVia_closed h message
  | missing h hforensic => exact deadLetterVia_missing h hforensic message
  | forwarded h hforensic henqueue =>
      obtain ⟨forensic, hfound⟩ := Option.isSome_iff_exists.mp hforensic
      have hrest := henqueue.eq fuel (by rw [List.length_cons] at hfuel; omega)
      rw [deadLetterVia_forward h hfound, hrest]

end

mutual

/-- The only throw there is comes from a forensic destination that is missing. -/
theorem Enqueues.ne_diverged {topic : Topic} {message : Held} {b b' : Broker} {calls : List Call}
    {r : Except Exn Bool} : Enqueues topic message b calls r b' → r ≠ .error .diverged
  | .room _ _ => fun heq => nomatch heq
  | .refused _ _ _ => fun heq => nomatch heq
  | .rejected _ _ _ _ h => Exec.map_ne_error _ h.ne_diverged
  | .dropped _ _ _ _ _ => fun heq => nomatch heq
  | .evicted _ _ _ _ _ _ => fun heq => nomatch heq
  | .threw _ _ _ _ _ h => fun heq =>
      h.ne_diverged (congrArg Except.error (Except.error.inj heq))

theorem DeadLetters.ne_diverged {source : Topic} {message : Held} {b b' : Broker}
    {calls : List Call} {r : Except Exn Unit} :
    DeadLetters source message b calls r b' → r ≠ .error .diverged
  | .closed _ => fun heq => nomatch heq
  | .missing _ _ => fun heq => nomatch heq
  | .forwarded _ _ henqueue => Exec.map_ne_error _ henqueue.ne_diverged

end

/-- Where at most `n` topics lie ahead, a call of `enqueueLocked` has a derivation. -/
def EnqueuesWithin (n : Nat) : Prop :=
  ∀ (topic : Topic) (message : Held) (b : Broker), (b.find topic).isSome = true →
    (b.deeper topic.length).card ≤ n →
      ∃ calls r b', Enqueues topic message b calls r b' ∧ calls.length ≤ 2 * n

/-- And so has one of `deadLetterLocked`. -/
theorem EnqueuesWithin.deadLetters {n : Nat} (h : EnqueuesWithin n) {b : Broker} {source : Topic}
    (hahead : (b.deeper (deadLetterTopic source).length).card ≤ n) (message : Held) :
    ∃ calls r b', DeadLetters source message b calls r b' ∧ calls.length ≤ 2 * n + 1 := by
  cases hdead : b.deadLetters source with
  | false => exact ⟨_, _, _, .closed hdead, by simp⟩
  | true =>
      cases hforensic : b.find (deadLetterTopic source) with
      | none => exact ⟨_, _, _, .missing hdead hforensic, by simp⟩
      | some forensic =>
          have hfound : (b.find (deadLetterTopic source)).isSome = true := by
            rw [hforensic, Option.isSome_some]
          have hsame : SameTopics b (b.deadLettered source message) := .of_find fun _ => rfl
          obtain ⟨calls, r, b', henqueue, hlength⟩ := h (deadLetterTopic source)
            (b.renumbered message) (b.deadLettered source message) hfound
            (by rw [deeper_of_sameTopics hsame]; exact hahead)
          refine ⟨_, _, b', .forwarded hdead hfound henqueue, ?_⟩
          rw [List.length_cons]
          omega

/-- With each turn of the recursion one topic fewer lies ahead. -/
theorem enqueuesWithin (n : Nat) : EnqueuesWithin n := by
  induction n with
  | zero =>
      intro topic message b htopic hahead
      have hlt := card_deeper_deadLetterTopic_lt htopic
      omega
  | succ n ih =>
      intro topic message b htopic hahead
      have hnext : (b.deeper (deadLetterTopic topic).length).card ≤ n := by
        have hlt := card_deeper_deadLetterTopic_lt htopic
        omega
      have hone : [Call.enqueueLocked topic].length ≤ 2 * (n + 1) := by
        rw [List.length_singleton]
        omega
      have hmore : ∀ calls : List Call, calls.length ≤ 2 * n + 1 →
          (Call.enqueueLocked topic :: calls).length ≤ 2 * (n + 1) := by
        intro calls hcalls
        rw [List.length_cons]
        omega
      obtain ⟨state, hfind⟩ := Option.isSome_iff_exists.mp htopic
      cases hfull : state.full with
      | false => exact ⟨_, _, _, .room hfind hfull, hone⟩
      | true =>
          cases hpolicy : state.options.overflow with
          | rejectPublish => exact ⟨_, _, _, .refused hfind hfull (.inl hpolicy), hone⟩
          | rejectPublishDlx =>
              cases hdead : state.options.deadLetter with
              | false => exact ⟨_, _, _, .refused hfind hfull (.inr ⟨hpolicy, hdead⟩), hone⟩
              | true =>
                  obtain ⟨calls, r, b', h, hlength⟩ := ih.deadLetters hnext message
                  exact ⟨_, _, b', .rejected hfind hfull hpolicy hdead h, hmore calls hlength⟩
          | dropHead =>
              obtain ⟨evicted, rest, hmessages⟩ :=
                List.exists_cons_of_ne_nil (messages_ne_nil_of_full hfull)
              cases hdead : state.options.deadLetter with
              | false => exact ⟨_, _, _, .dropped hfind hfull hpolicy hdead hmessages, hone⟩
              | true =>
                  have hsame := sameTopics_write hfind rest
                  obtain ⟨calls, r, b', h, hlength⟩ := ih.deadLetters
                    (by rw [deeper_of_sameTopics hsame]; exact hnext) evicted
                  cases r with
                  | ok => exact ⟨_, _, _, .evicted hfind hfull hpolicy hdead hmessages h,
                      hmore calls hlength⟩
                  | error e => exact ⟨_, _, _, .threw hfind hfull hpolicy hdead hmessages h,
                      hmore calls hlength⟩

/-! ## Every call ends -/

/-- How a call that started with `b` has ended. -/
structure Ended {α : Type} (first : Call) (b : Broker) (calls : List Call) (r : Except Exn α)
    (b' : Broker) : Prop where
  /-- it went up the chain of forensic destinations -/
  calls_eq : ∃ n, calls = first :: first.after n
  /-- entering neither function twice with one topic -/
  nodup : calls.Nodup
  /-- no topic has changed but those that `enqueueLocked` was called with -/
  unvisited : ∀ t, .enqueueLocked t ∉ calls → b'.find t = b.find t
  groups : b'.groups = b.groups
  /-- what came of it is a return or a throw of the source -/
  converged : r ≠ .error .diverged
  grows : ∀ a, r = .ok a → b'.waiting.card ≤ b.waiting.card + 1

theorem Climbs.ended {α : Type} {first : Call} {b b' : Broker} {calls : List Call}
    {r : Except Exn α} (h : Climbs first calls b b') (hconverged : r ≠ .error .diverged)
    (hgrows : ∀ a, r = .ok a → b'.waiting.card ≤ b.waiting.card + 1) :
    Ended first b calls r b' := by
  obtain ⟨n, hcalls⟩ := h.calls_eq
  exact ⟨h.calls_eq, hcalls ▸ first.nodup_cons_after n, h.unvisited, h.groups, hconverged, hgrows⟩

/-- Whatever the topics and their options, a call of either function has a finite
derivation, which is what the model computes with one unit of fuel for every topic,
or with more. -/
theorem calls_end (b : Broker) (topic : Topic) (message : Held) :
    ((b.find topic).isSome = true → ∃ calls r b',
      Enqueues topic message b calls r b' ∧ Ended (.enqueueLocked topic) b calls r b' ∧
        ∀ fuel, b.topics.size ≤ fuel → enqueueLocked fuel topic message b = (r, b')) ∧
    ∃ calls r b', DeadLetters topic message b calls r b' ∧
      Ended (.deadLetterLocked topic) b calls r b' ∧
        deadLetterLocked topic message b = (r, b') := by
  have hsize := card_deeper_le b
  constructor
  · intro htopic
    obtain ⟨calls, r, b', h, hlength⟩ := enqueuesWithin _ topic message b htopic (hsize _)
    exact ⟨calls, r, b', h, h.climbs.ended h.ne_diverged fun a => h.card_le,
      fun fuel hfuel => h.eq fuel (by omega)⟩
  · obtain ⟨calls, r, b', h, hlength⟩ := (enqueuesWithin b.topics.size).deadLetters
      (hsize (deadLetterTopic topic).length) message
    exact ⟨calls, r, b', h, h.climbs.ended h.ne_diverged fun u => h.card_le, h.eq _ hlength⟩

/-- Two full topics on one chain, and no third. -/
def shortChain : Broker :=
  { topics := (({} : Std.TreeMap Topic TopicState).insert "jobs"
        { messages := [{ sequence := 1, body := [1], copy := 1 }]
          options := { maxLength := 1 } }).insert "motus.dead-letter.jobs"
        { messages := [{ sequence := 2, body := [2], copy := 2 }]
          options := { maxLength := 1 } }
    sequence := 2 }

theorem calls_end_shortChain : ∃ calls r b',
    Enqueues "jobs" { sequence := 3, body := [3], copy := 3 } shortChain calls r b' ∧
      Ended (.enqueueLocked "jobs") shortChain calls r b' ∧
        ∀ fuel, shortChain.topics.size ≤ fuel →
          enqueueLocked fuel "jobs" { sequence := 3, body := [3], copy := 3 } shortChain =
            (r, b') :=
  (calls_end shortChain "jobs" { sequence := 3, body := [3], copy := 3 }).1 (by decide +kernel)

end Broker

end Motus.InMemory
