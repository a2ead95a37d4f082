import ZmqPlayground.ConvStack.Relay
import ZmqPlayground.Library.Walks

/-! How often the converting stack publishes on a topic because of one message.

Every conversion is an edge of a multigraph of topics, and a topic that is listed
twice is reached by two edges. What a message leads to has one copy for each walk
from its topic.
-/

set_option autoImplicit false

namespace ZmqPlayground

open Library
open Library.Runs
open Library.Walks
open Relation (ReflTransGen TransGen)

namespace ConvStack

/-- The edges of the topic graph: none leave a topic that no filter lets in, or that does not reach
`onReceivedMessage`. -/
def edges (stack : ConvStack) (topic : Str) : List Str :=
  if Matches stack.socket.filters topic ∧ Subscriber.kind topic = .application then stack.outputs topic else []

variable {stack : ConvStack}

theorem feeds_edges : Worklist.Feeds stack.edges = stack.Converts := by
  funext before after
  rw [Worklist.Feeds, edges, Converts]
  split
  · rename_i received
    simp [received]
  · rename_i dropped
    simp only [List.not_mem_nil, eq_iff_iff, false_iff]
    exact fun converts => dropped ⟨converts.1, converts.2.1⟩

theorem forwards_publication (stack : ConvStack) (msg topic : Str) :
    stack.forwards (.publication topic msg) = (stack.edges topic).map fun next => .publication next msg := rfl

theorem edges_finite (stack : ConvStack) (topic : Str) :
    {other | ReflTransGen (Worklist.Feeds stack.edges) topic other}.Finite := by
  refine (topic :: stack.outputTopics).finite_toSet.subset fun other walk => ?_
  rw [feeds_edges] at walk
  rcases walk.cases_tail with rfl | ⟨_, _, converts⟩
  · exact List.mem_cons_self
  · exact List.mem_cons_of_mem _ (outputs_subset converts.2.2)

theorem exists_within_iff_acyclic (stack : ConvStack) (topic : Str) :
    (∃ n, Worklist.Within stack.edges n topic) ↔
      ∀ other, ReflTransGen stack.Converts topic other → ¬ TransGen stack.Converts other other := by
  rw [← feeds_edges]
  exact Worklist.exists_within_iff (edges_finite stack topic)

end ConvStack

namespace Relay

open ConvStack

variable {stack : ConvStack} {topic msg : Str} {steps : List (Taken Relay Message Message)} {final : Relay}

theorem step_isSome {relay : Relay} {msgs : Message} (member : msgs ∈ relay.inFlight) :
    (step relay msgs).isSome = true := by
  rw [step, if_pos member]
  split
  · rfl
  · rfl

theorem publication_injective (msg : Str) : Function.Injective fun topic => Message.publication topic msg :=
  fun _ _ same => (Message.publication_inj.mp same).1

/-- If one message leads to no cycle, the relay ends, in whatever order the proxy forwards; and it has then
published, on each topic, one copy of the payload for every walk that leads there. -/
theorem published_walks (stack : ConvStack) (topic msg : Str)
    (acyclic : ∀ other, ReflTransGen stack.Converts topic other → ¬ TransGen stack.Converts other other) :
    ∃ bound, ∀ steps final, Run step ⟨stack, {.publication topic msg}⟩ steps final →
      steps.length ≤ bound ∧ (∀ msgs ∈ final.inFlight, (step final msgs).isSome = true) ∧
      (∀ msgs ∈ trace steps, ∃ last, msgs = .publication last msg) ∧
      (final.inFlight = 0 → ∀ last, Finite (Walk stack.edges topic last) ∧
        (trace steps).count (.publication last msg) = Nat.card (Walk stack.edges topic last)) := by
  obtain ⟨n, within⟩ := (exists_within_iff_acyclic stack topic).mpr acyclic
  have follows := forwards_publication stack msg
  have bounded := (Worklist.within_map follows).mpr within
  have copies := Worklist.offspring_map follows n topic
  refine ⟨1 + (Worklist.offspring stack.edges n topic).card, fun steps final run => ?_⟩
  obtain ⟨worked, inFlight, works, rfl, rfl⟩ := Run.of_map (step_eq_worklist stack) run
  obtain ⟨short, fewer, complete⟩ := Worklist.run_complete bounded works
  rw [copies] at short fewer complete
  rw [Multiset.card_map] at short
  rw [List.length_map, trace_map]
  refine ⟨short, fun msgs member => step_isSome member, fun msgs member => ?_, fun empty last => ?_⟩
  · obtain ⟨last, -, same⟩ := Multiset.mem_map.mp (Multiset.mem_of_le fewer (Multiset.mem_coe.mpr member))
    exact ⟨last, same.symm⟩
  · obtain ⟨finite, card⟩ := card_walk within last
    apply And.intro finite
    rw [card, ← Multiset.coe_count, (complete empty).1, Multiset.count_map_eq_count' _ _ (publication_injective msg)]

def twiceStack : ConvStack :=
  let conversions : ConversionMap :=
    ((∅ : ConversionMap).insert "topic1".toList ["topic2".toList, "topic2".toList]).insert
      "topic2".toList ["topic3".toList]
  .create (fun _ => true) ["tcp://localhost:9200".toList] ["topic".toList] conversions

/-- Two messages on the third topic, for the two walks that lead there. -/
theorem published_walks_twice : ∃ steps final,
    Run step ⟨twiceStack, {.publication "topic1".toList "hello".toList}⟩ steps final ∧ final.inFlight = 0 ∧
      (trace steps).count (.publication "topic3".toList "hello".toList) = 2 ∧
      Nat.card (Walk twiceStack.edges "topic1".toList "topic3".toList) = 2 := by
  have within : Worklist.Within twiceStack.edges 2 "topic1".toList := by decide +kernel
  have computed : (exec step ⟨twiceStack, {.publication "topic1".toList "hello".toList}⟩ [
      .publication "topic1".toList "hello".toList, .publication "topic2".toList "hello".toList,
      .publication "topic3".toList "hello".toList, .publication "topic2".toList "hello".toList,
      .publication "topic3".toList "hello".toList]).any (fun (steps, final) => decide (final.inFlight = 0) &&
        decide ((trace steps).count (.publication "topic3".toList "hello".toList) = 2)) = true := by
    decide +kernel
  obtain ⟨steps, final, run, checked⟩ := exists_run_of_exec computed
  simp only [Bool.and_eq_true, decide_eq_true_eq] at checked
  obtain ⟨_, published⟩ := published_walks twiceStack "topic1".toList "hello".toList
    ((exists_within_iff_acyclic twiceStack "topic1".toList).mp ⟨2, within⟩)
  obtain ⟨-, -, -, counts⟩ := published steps final run
  have walks := (counts checked.1 "topic3".toList).2
  exact ⟨steps, final, run, checked.1, checked.2, walks.symm.trans checked.2⟩

/-- The edges there would be, if whatever a filter lets in were converted. -/
def letIn (stack : ConvStack) (topic : Str) : List Str :=
  if Matches stack.socket.filters topic then stack.outputs topic else []

def ctrlStack : ConvStack :=
  .create (fun _ => true) ["tcp://localhost:9200".toList] [ctrlTopic]
    ((∅ : ConversionMap).insert ctrlTopic ["topic1".toList])

/-- A control message is let in and published nowhere. -/
theorem ctrl_unpublished :
    (∀ other, ReflTransGen (Worklist.Feeds (letIn ctrlStack)) ctrlTopic other →
        ¬ TransGen (Worklist.Feeds (letIn ctrlStack)) other other) ∧
      Nat.card (Walk (letIn ctrlStack) ctrlTopic "topic1".toList) = 1 ∧
      ∃ steps final, Run step ⟨ctrlStack, {.publication ctrlTopic "hello".toList}⟩ steps final ∧
        final.inFlight = 0 ∧ (trace steps).count (.publication "topic1".toList "hello".toList) = 0 := by
  have within : Worklist.Within (letIn ctrlStack) 1 ctrlTopic := by decide +kernel
  have counted : (Worklist.offspring (letIn ctrlStack) 1 ctrlTopic).count "topic1".toList = 1 := by decide +kernel
  have computed : (exec step ⟨ctrlStack, {.publication ctrlTopic "hello".toList}⟩ [
      .publication ctrlTopic "hello".toList]).any (fun (steps, final) => decide (final.inFlight = 0) &&
        decide ((trace steps).count (.publication "topic1".toList "hello".toList) = 0)) = true := by
    decide +kernel
  obtain ⟨steps, final, run, checked⟩ := exists_run_of_exec computed
  simp only [Bool.and_eq_true, decide_eq_true_eq] at checked
  refine ⟨fun other => within.acyclic, ?_, steps, final, run, checked⟩
  rw [(card_walk within _).2, counted]

end Relay

end ZmqPlayground
