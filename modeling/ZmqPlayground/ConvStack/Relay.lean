import ZmqPlayground.ConvStack.ConvStack
import ZmqPlayground.Library.Worklist

/-! The converting stack behind a proxy that delivers its own publications to it.

The proxy forwards every message in flight once, in any order. The stack receives
those one of its filters is a prefix of, and what it publishes is in flight again.
-/

set_option autoImplicit false

namespace ZmqPlayground

open Library
open Library.Runs
open Relation (ReflTransGen TransGen)

namespace ConvStack

def target : Subscriber.Target Reaction := ⟨onReceivedMessage, onCtrlMessage⟩

def receive (msgs : Message) (stack : ConvStack) : ConvStack × List Message :=
  match (Subscriber.dispatch target).eval msgs.frames with
  | some (some (.converts topic msg)) => stack.convert topic msg
  -- A welcome or a control message publishes nothing, with one frame or with more.
  | _ => (stack, [])

/-- The topics a message is converted to when the proxy has forwarded it. -/
def converted (stack : ConvStack) (msgs : Message) : List Str :=
  if Matches stack.socket.filters msgs.first ∧ Subscriber.kind msgs.first = .application then
    stack.outputs (route msgs).1
  else []

def forwards (stack : ConvStack) (msgs : Message) : List Message :=
  ZmqStack.publish (stack.converted msgs) (route msgs).2

theorem receive_outputs (stack : ConvStack) (msgs : Message) : stack.receive msgs = (stack, ZmqStack.publish
    (if Subscriber.kind msgs.first = .application then stack.outputs (route msgs).1 else []) (route msgs).2) := by
  rw [receive, Subscriber.eval_dispatch]
  cases Subscriber.kind msgs.first with
  | welcome => rfl
  | ctrl =>
      rw [show target.onCtrlMessage = logFrames from rfl, eval_logFrames]
      cases msgs.frames[1]? <;> rfl
  | application =>
      rw [target, eval_onReceivedMessage]
      exact convert_eq _ _ _

theorem receive_eq {stack : ConvStack} {msgs : Message}
    (received : Matches stack.socket.filters msgs.first) :
    stack.receive msgs = (stack, stack.forwards msgs) := by
  rw [receive_outputs, forwards, converted]
  simp only [received, true_and]

end ConvStack

/-- The stack and the messages the proxy has still to forward. -/
structure Relay where
  stack : ConvStack
  inFlight : Multiset Message

namespace ConvStack

/-- An edge of the topic graph: messages on `before` are published on `after`. -/
def Converts (stack : ConvStack) (before after : Str) : Prop :=
  Matches stack.socket.filters before ∧ Subscriber.kind before = .application ∧
    after ∈ stack.outputs before

/-- The topics a message is converted to, and those these are converted to in turn. -/
def LeadsTo (stack : ConvStack) (msgs : Message) (topic : Str) : Prop :=
  ∃ first ∈ stack.converted msgs, ReflTransGen stack.Converts first topic

variable {stack : ConvStack}

theorem feeds_iff {before after : Message} :
    Worklist.Feeds stack.forwards before after ↔
      ∃ topic ∈ stack.converted before, after = .publication topic (route before).2 := by
  simp only [Worklist.Feeds, forwards, ZmqStack.publish, List.mem_map, eq_comm]

theorem mem_converted_publication {topic after msg : Str} :
    after ∈ stack.converted (.publication topic msg) ↔ stack.Converts topic after := by
  rw [converted, Converts, Message.first_publication]
  split
  · rename_i received
    simp only [received, true_and]
    rfl
  · rename_i dropped
    simp only [List.not_mem_nil, false_iff]
    exact fun edge => dropped ⟨edge.1, edge.2.1⟩

theorem feeds_publication_iff {topic msg : Str} {after : Message} :
    Worklist.Feeds stack.forwards (.publication topic msg) after ↔
      ∃ next, stack.Converts topic next ∧ after = .publication next msg := by
  simp only [feeds_iff, mem_converted_publication]
  rfl

theorem reach_publication_iff {topic msg : Str} {after : Message} :
    ReflTransGen (Worklist.Feeds stack.forwards) (.publication topic msg) after ↔
      ∃ last, ReflTransGen stack.Converts topic last ∧ after = .publication last msg := by
  constructor
  · intro reach
    induction reach with
    | refl => exact ⟨topic, .refl, rfl⟩
    | tail _ feeds ih =>
        obtain ⟨middle, walk, rfl⟩ := ih
        obtain ⟨last, edge, rfl⟩ := feeds_publication_iff.mp feeds
        exact ⟨last, walk.tail edge, rfl⟩
  · rintro ⟨last, walk, rfl⟩
    exact walk.lift (fun topic => Message.publication topic msg) fun _ next edge =>
      feeds_publication_iff.mpr ⟨next, edge, rfl⟩

theorem reach_iff {msgs after : Message} :
    TransGen (Worklist.Feeds stack.forwards) msgs after ↔
      ∃ topic, stack.LeadsTo msgs topic ∧ after = .publication topic (route msgs).2 := by
  rw [TransGen.head'_iff]
  constructor
  · rintro ⟨_, feeds, reach⟩
    obtain ⟨first, member, rfl⟩ := feeds_iff.mp feeds
    obtain ⟨last, walk, rfl⟩ := reach_publication_iff.mp reach
    exact ⟨last, ⟨first, member, walk⟩, rfl⟩
  · rintro ⟨last, ⟨first, member, walk⟩, rfl⟩
    exact ⟨_, feeds_iff.mpr ⟨first, member, rfl⟩, reach_publication_iff.mpr ⟨last, walk, rfl⟩⟩

theorem cycle_publication_iff {topic msg : Str} :
    TransGen (Worklist.Feeds stack.forwards) (.publication topic msg) (.publication topic msg) ↔
      TransGen stack.Converts topic topic := by
  rw [reach_iff, TransGen.head'_iff]
  simp only [LeadsTo, mem_converted_publication, Message.publication_inj]
  constructor
  · rintro ⟨_, walk, rfl, _⟩
    exact walk
  · exact fun walk => ⟨topic, walk, rfl, rfl⟩

def outputTopics (stack : ConvStack) : List Str :=
  stack.conversionMap.entries.flatMap (·.2)

theorem outputs_subset {topic after : Str} (member : after ∈ stack.outputs topic) :
    after ∈ stack.outputTopics := by
  rw [outputs] at member
  cases found : stack.conversionMap.lookup topic with
  | none => simp [found] at member
  | some topics =>
      rw [found, Option.getD_some] at member
      exact List.mem_flatMap.mpr ⟨⟨topic, topics⟩, AList.mem_lookup_iff.mp found, member⟩

theorem reached_finite (stack : ConvStack) (msgs : Message) :
    {other | ReflTransGen (Worklist.Feeds stack.forwards) msgs other}.Finite := by
  let published := stack.outputTopics.map fun topic => Message.publication topic (route msgs).2
  refine (msgs :: published).finite_toSet.subset fun other reach => ?_
  rcases Relation.reflTransGen_iff_eq_or_transGen.mp reach with rfl | chain
  · exact List.mem_cons_self
  · obtain ⟨topic, ⟨first, member, walk⟩, rfl⟩ := reach_iff.mp chain
    refine List.mem_cons_of_mem _ (List.mem_map_of_mem ?_)
    rcases Relation.ReflTransGen.cases_tail walk with rfl | ⟨_, _, _, _, member⟩
    · rw [converted] at member
      split at member
      · exact outputs_subset member
      · cases member
    · exact outputs_subset member

end ConvStack

namespace Relay

open ConvStack

def step : Step Relay Message Message := fun relay msgs =>
  if msgs ∈ relay.inFlight then
    if Matches relay.stack.socket.filters msgs.first then
      let (stack, published) := relay.stack.receive msgs
      some (⟨stack, relay.inFlight.erase msgs + published⟩, published)
    else some (⟨relay.stack, relay.inFlight.erase msgs⟩, [])
  else none

theorem step_eq_worklist (stack : ConvStack) (inFlight : Multiset Message) (msgs : Message) :
    step ⟨stack, inFlight⟩ msgs =
      (Worklist.step stack.forwards inFlight msgs).map (Prod.map (Relay.mk stack) id) := by
  rw [step, Worklist.step]
  split
  · split
    · rename_i received
      rw [ConvStack.receive_eq received]
      rfl
    · rename_i unmatched
      have nothing : stack.forwards msgs = [] := by
        rw [ConvStack.forwards, ConvStack.converted, if_neg fun both => unmatched both.1]
        rfl
      rw [nothing]
      simp
  · rfl

/-- The relay started by one message publishes a bounded number of times, in whatever order the
proxy forwards: the statement of messages instead of topics. -/
theorem bounded_iff_messages (stack : ConvStack) (msgs : Message) :
    (∃ bound, ∀ steps final, Run step ⟨stack, {msgs}⟩ steps final → (trace steps).length ≤ bound) ↔
      ∀ other, ReflTransGen (Worklist.Feeds stack.forwards) msgs other →
        ¬ TransGen (Worklist.Feeds stack.forwards) other other := by
  rw [← Worklist.bounded_iff_not_cycle (reached_finite stack msgs)]
  refine exists_congr fun bound => ⟨fun bounded steps final run => ?_, fun bounded steps final run => ?_⟩
  · have relayed := bounded _ _ (run.map (step_eq_worklist stack))
    rwa [trace_map] at relayed
  · obtain ⟨steps, final, worked, rfl, rfl⟩ := Run.of_map (step_eq_worklist stack) run
    rw [trace_map]
    exact bounded steps final worked

/-- The relay a message starts is finite exactly when it leads to no cycle of the topic graph. -/
theorem bounded_iff_acyclic (stack : ConvStack) (msgs : Message) :
    (∃ bound, ∀ steps final, Run step ⟨stack, {msgs}⟩ steps final → (trace steps).length ≤ bound) ↔
      ∀ topic, stack.LeadsTo msgs topic → ¬ TransGen stack.Converts topic topic := by
  rw [bounded_iff_messages]
  constructor
  · intro acyclic topic leads cycle
    exact acyclic _ (reach_iff.mpr ⟨topic, leads, rfl⟩).to_reflTransGen
      (cycle_publication_iff.mpr cycle)
  · intro acyclic other reach cycle
    -- The start itself need not be a publication, but what closes a cycle is one.
    obtain ⟨topic, leads, rfl⟩ := reach_iff.mp (TransGen.trans_right reach cycle)
    exact acyclic topic leads (cycle_publication_iff.mp cycle)

def sampleStack : ConvStack :=
  let topics := ["topic1".toList, "topic2".toList]
  let conversions : ConversionMap :=
    ((∅ : ConversionMap).insert "topic1".toList ["topic2".toList]).insert
      "topic2".toList ["topic1".toList]
  .create (fun _ => true) ["tcp://localhost:9200".toList] topics conversions

/-- With the sample configuration, one message on `topic1` is relayed without end. -/
theorem sample_unbounded : ¬ ∃ bound, ∀ steps final,
    Run step ⟨sampleStack, {.publication "topic1".toList "hello".toList}⟩ steps final →
      (trace steps).length ≤ bound := by
  intro bounded
  refine (bounded_iff_messages _ _).mp bounded _ .refl (cycle_publication_iff.mpr ?_)
  have there : sampleStack.Converts "topic1".toList "topic2".toList := by
    unfold ConvStack.Converts
    decide
  have back : sampleStack.Converts "topic2".toList "topic1".toList := by
    unfold ConvStack.Converts
    decide
  exact (TransGen.single there).tail back

end Relay

end ZmqPlayground
