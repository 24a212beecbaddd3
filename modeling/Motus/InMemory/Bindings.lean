import Motus.Transport.Patterns
import Motus.InMemory.Redeclaration

set_option autoImplicit false

/-!
# Bindings

What `routeMatches` accepts, and with it what a group that routes by exact keys and
one that routes by patterns have in common.  A topic is bound with a key that its own
binding matches, so a send that names no route reaches the topic it is sent to.
-/

namespace Motus.InMemory

open Motus.Foundation Motus.Transport

namespace Broker

/-- For every binding and every route the matcher accepts the route exactly when its
words can be cut into blocks as the words of the binding allow.  Splitting a text at
its dots and joining words with dots undo each other.  A binding without wildcards
matches itself only, under `Exact` and under `Pattern` alike. -/
theorem routeMatches_iff_blocks :
    (∀ binding route, routeMatches binding route =
        matcherAtFrom (split binding) (split route) 0 0 ∧
      (routeMatches binding route = true ↔
        ∃ blocks, split route = blocks.flatten ∧
          List.Forall₂ allows (split binding) blocks)) ∧
    (∀ text, split text = splitFrom text.toList 0 ∧ join (split text) = text ∧
      split text ≠ [] ∧ ∀ w ∈ split text, '.' ∉ w) ∧
    (∀ words, words ≠ [] → (∀ w ∈ words, '.' ∉ w) → split (join words) = words) ∧
    split "" = [[]] ∧
    ∀ binding, ['*'] ∉ split binding → ['#'] ∉ split binding → ∀ route,
      (routeMatches binding route = true ↔ route = binding) ∧
        bindingMatches .exact binding route = bindingMatches .pattern binding route := by
  refine ⟨fun binding route => ⟨routeMatches_eq_matcherAtFrom binding route,
      routeMatches_iff_covers binding route⟩,
    fun text => ⟨split_eq_splitFrom text, join_split text, split_ne_nil text,
      not_mem_split text⟩,
    fun words hne hdot => split_join hne hdot, rfl, fun binding hstar hhash route => ?_⟩
  have hiff := routeMatches_iff_eq hstar hhash route
  refine ⟨hiff, ?_⟩
  rw [bindingMatches, bindingMatches, Bool.eq_iff_iff, hiff, beq_iff_eq, eq_comm]

theorem routeMatches_iff_blocks_backtracks :
    ∃ blocks, split "A.B.B.C" = blocks.flatten ∧
      List.Forall₂ allows (split "A.#.C") blocks :=
  (routeMatches_iff_blocks.1 "A.#.C" "A.B.B.C").2.mp (by decide +kernel)

end Broker

open Broker

namespace System

/-- A send to the topic without a route of its own returns, and offers the topic itself
one copy of the body. -/
def OffersSelf (s : System) (topic : Topic) (body : Bytes) : Prop :=
  ∃ accepted before copy after, (publish topic body "" s.broker).1 = .ok accepted ∧
    (publish topic body "" s.broker).2.offersMade =
      s.broker.offersMade ++ before ++ (topic, copy) :: after ∧
    topic ∉ (before ++ after).map Prod.fst ∧ copy.body = body ∧ copy.redelivered = false ∧
    ∀ i t options, s.transports[i]? = some t → t.publishes options = true →
      options.route = "" →
      (s.step (.send i topic body options)).broker = (publish topic body "" s.broker).2

/-- Every binding matches itself.  In every state of every run a send to a topic in a
group, under any routing kind and any binding, offers a copy to the topic itself. -/
theorem offersSelf_of_find (actions : List Action) :
    (∀ binding, routeMatches binding binding = true) ∧
    ∀ topic state, (machine.run actions).broker.find topic = some state →
      state.options.group ≠ "" → ∀ body, OffersSelf (machine.run actions) topic body := by
  refine ⟨routeMatches_self, fun topic state hfind hgroup body => ?_⟩
  have hgrouped : Grouped (machine.run actions).broker :=
    (always_groupsStand actions).last.2.grouped
  obtain ⟨hrouting, -⟩ := hgrouped topic _ (optionsOf_of_find hfind) hgroup
  obtain ⟨offers, hresult, hpublished⟩ := publish_published hgrouped hfind hgroup hrouting body ""
  rw [if_pos rfl] at hpublished
  have hself : topic ∈ offers.map Offer.topic := by
    rw [hpublished.topics, mem_destinations]
    exact ⟨state, hfind, rfl, bindingMatches_self _ _⟩
  obtain ⟨offer, hoffer, rfl⟩ := List.mem_map.mp hself
  obtain ⟨before, after, rfl⟩ := List.append_of_mem hoffer
  have hothers : offer.topic ∉ (before ++ after).map Offer.topic := by
    have hnodup := hpublished.nodup
    rw [List.map_append, List.map_cons] at hnodup
    rw [List.map_append]
    exact (List.nodup_middle.mp hnodup).notMem
  obtain ⟨hbody, hflag⟩ := hpublished.copies offer hoffer
  refine ⟨_, before.map fun o => (o.topic, o.copy), offer.copy,
    after.map fun o => (o.topic, o.copy), hresult, ?_, ?_, hbody, hflag,
    fun i t options hlookup hpublishes hroute => ?_⟩
  · rw [hpublished.offersMade, List.map_append, List.map_cons, List.append_assoc]
  · rw [← List.map_append, List.map_map]
    exact hothers
  · obtain ⟨stats, hstep⟩ := step_send hlookup hpublishes offer.topic body
    rw [hstep, hroute]

/-- A destination that is full and bound with `#` is still offered its own sends. -/
theorem offersSelf_of_find_fanOutRun : OffersSelf (machine.run fanOutRun) "audit" [2] :=
  (offersSelf_of_find fanOutRun).2 "audit"
    (((machine.run fanOutRun).broker.find "audit").getD {}) (by decide +kernel)
    (by decide +kernel) [2]

end System

end Motus.InMemory
