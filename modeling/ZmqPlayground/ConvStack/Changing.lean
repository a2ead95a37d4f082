import ZmqPlayground.ConvStack.Relay
import ZmqPlayground.ConvStack.Sources

/-! The relay while conversions are added and removed.

A message that comes back is converted by the map of that moment. As long as all maps stay
within one table that leads no topic back to itself, what a message can bring about is
bounded, however the changes fall between its conversions.
-/

set_option autoImplicit false

namespace ZmqPlayground

open Library
open Library.Runs
open Library.Worklist (Within Feeds toll)
open Relation (TransGen)

def ConversionMap.topics (map : ConversionMap) (topic : Str) : List Str := (map.lookup topic).getD []

namespace ConvStack

/-- The stack converts to no more than the table does. -/
def Inside (table : ConversionMap) (stack : ConvStack) : Prop :=
  ∀ topic, (stack.outputs topic : Multiset Str) ≤ table.topics topic

def withBase (stack : ConvStack) (base : ZmqStack) : ConvStack :=
  { base with conversionMap := stack.conversionMap }

end ConvStack

namespace Relay

open ConvStack

/-- A message is forwarded by the proxy, published by another stack, or pulled by the receiver; or
the stack is configured. -/
inductive Act where
  | forwards (msgs : Message)
  | publishes (msgs : Message)
  | pulls (msgs : Message)
  | addConversion (option : SocketCall) (subTopic : Str) (pubTopics : List Str)
  | removeConversion (option : SocketCall) (subTopic : Str)
  | subscribe (option : SocketCall) (topic : Str)
  | unsubscribe (option : SocketCall) (topic : Str)
  deriving DecidableEq

def Act.isForward : Act → Bool
  | .forwards _ => true
  | _ => false

def Act.Inside (table : ConversionMap) : Act → Prop
  | .addConversion _ subTopic pubTopics => (pubTopics : Multiset Str) ≤ table.topics subTopic
  | _ => True

instance (table : ConversionMap) (act : Act) : Decidable (act.Inside table) :=
  match act with
  | .addConversion _ subTopic pubTopics =>
      inferInstanceAs (Decidable ((pubTopics : Multiset Str) ≤ table.topics subTopic))
  | .forwards _ | .publishes _ | .pulls _ | .removeConversion _ _ | .subscribe _ _ | .unsubscribe _ _ => isTrue trivial

def Act.enters : Act → List Message
  | .publishes msgs | .pulls msgs => [msgs]
  | _ => []

def act : Step Relay Act Message
  | relay, .forwards msgs => step relay msgs
  | relay, .publishes msgs => some (⟨relay.stack, msgs ::ₘ relay.inFlight⟩, [msgs])
  | relay, .pulls msgs =>
      let (stack, published) := relay.stack.accept .receiver msgs
      some (⟨stack, relay.inFlight + published⟩, published)
  | relay, .addConversion option subTopic pubTopics =>
      some (⟨(relay.stack.addConversion option subTopic pubTopics).1, relay.inFlight⟩, [])
  | relay, .removeConversion option subTopic =>
      some (⟨(relay.stack.removeConversion option subTopic).1, relay.inFlight⟩, [])
  | relay, .subscribe option topic =>
      some (⟨relay.stack.withBase (relay.stack.subscribe option topic).1, relay.inFlight⟩, [])
  | relay, .unsubscribe option topic =>
      some (⟨relay.stack.withBase (relay.stack.unsubscribe option topic).1, relay.inFlight⟩, [])

section Inside
variable {table : ConversionMap} {stack : ConvStack}

theorem addConversion_inside (inside : stack.Inside table) (option : SocketCall) {subTopic : Str}
    {pubTopics : List Str} (listed : (pubTopics : Multiset Str) ≤ table.topics subTopic) :
    (stack.addConversion option subTopic pubTopics).1.Inside table := by
  cases option with
  | throws => exact inside
  | done =>
      intro topic
      simp only [addConversion, ZmqStack.subscribe, outputs]
      by_cases same : topic = subTopic
      · subst same
        rw [AList.lookup_insert, Option.getD_some]
        exact listed
      · rw [AList.lookup_insert_ne same]
        exact inside topic

theorem removeConversion_inside (inside : stack.Inside table) (option : SocketCall) (subTopic : Str) :
    (stack.removeConversion option subTopic).1.Inside table := by
  cases option with
  | throws => exact inside
  | done =>
      intro topic
      simp only [removeConversion, ZmqStack.unsubscribe, outputs]
      by_cases same : topic = subTopic
      · subst same
        rw [AList.lookup_erase, Option.getD_none]
        exact Multiset.zero_le _
      · rw [AList.lookup_erase_ne same]
        exact inside topic

end Inside

/-- The messages that can come of one, itself among them. -/
def cost (table : ConversionMap) (n : ℕ) (msgs : Message) : ℕ := toll table.topics n (route msgs).1

def weight (table : ConversionMap) (n : ℕ) (inFlight : Multiset Message) : ℕ :=
  (inFlight.map (cost table n)).sum

theorem keys_of_topics {table : ConversionMap} (topic : Str) (mapped : table.topics topic ≠ []) :
    topic ∈ table.keys := by
  rw [← AList.mem_keys, ← AList.lookup_isSome]
  cases found : table.lookup topic with
  | none => exact absurd (by rw [ConversionMap.topics, found]; rfl) mapped
  | some topics => rfl

section Cost
variable {table : ConversionMap} {n : ℕ}

theorem weight_publish (topics : List Str) (msg : Str) :
    weight table n (ZmqStack.publish topics msg : Multiset Message) =
      (topics.map (toll table.topics n)).sum := by
  rw [weight, ZmqStack.publish, Multiset.map_coe, Multiset.sum_coe, List.map_map]
  rfl

theorem weight_add (inFlight added : Multiset Message) :
    weight table n (inFlight + added) = weight table n inFlight + weight table n added := by
  rw [weight, Multiset.map_add, Multiset.sum_add, weight, weight]

theorem weight_erase {inFlight : Multiset Message} {msgs : Message} (member : msgs ∈ inFlight) :
    weight table n inFlight = cost table n msgs + weight table n (inFlight.erase msgs) := by
  conv_lhs => rw [← Multiset.cons_erase member]
  rw [weight, Multiset.map_cons, Multiset.sum_cons, weight]

theorem weight_le {bound : ℕ} (dear : ∀ msgs, cost table n msgs ≤ bound) (inFlight : Multiset Message) :
    weight table n inFlight ≤ bound * inFlight.card := by
  induction inFlight using Multiset.induction_on with
  | empty => exact Nat.zero_le _
  | cons msgs inFlight ih =>
      rw [weight, Multiset.map_cons, Multiset.sum_cons, ← weight, Multiset.card_cons, Nat.mul_succ, add_comm]
      exact Nat.add_le_add ih (dear msgs)

variable (within : ∀ topic, Within table.topics n topic)

include within in
theorem cost_pos (msgs : Message) : 0 < cost table n msgs := by
  rw [cost, Worklist.toll_eq (within _)]
  exact Nat.succ_pos _

include within in
theorem weight_outputs_lt {stack : ConvStack} (inside : stack.Inside table) (msgs : Message) (msg : Str) :
    weight table n (ZmqStack.publish (stack.outputs (route msgs).1) msg : Multiset Message) <
      cost table n msgs := by
  rw [weight_publish]
  exact Worklist.sum_toll_lt (within _) (inside _)

include within in
theorem receive_lt {stack : ConvStack} (inside : stack.Inside table) (msgs : Message) :
    ∃ sent, stack.receive msgs = (stack, sent) ∧
      weight table n (sent : Multiset Message) < cost table n msgs := by
  refine ⟨_, receive_outputs stack msgs, ?_⟩
  split
  · exact weight_outputs_lt within inside msgs _
  · exact cost_pos within msgs

include within in
theorem accept_lt {stack : ConvStack} (inside : stack.Inside table) (msgs : Message) :
    ∃ sent, stack.accept .receiver msgs = (stack, sent) ∧
      weight table n (sent : Multiset Message) < cost table n msgs := by
  refine ⟨_, ?_, weight_outputs_lt within inside msgs (route msgs).2⟩
  simp only [accept, conversion_receiver, convert_eq]

variable {before after : Relay} {events : List Message}

include within in
theorem step_pays (inside : before.stack.Inside table) {msgs : Message}
    (stepped : step before msgs = some (after, events)) :
    after.stack.Inside table ∧ weight table n after.inFlight + 1 ≤ weight table n before.inFlight := by
  obtain ⟨sent, received, less⟩ := receive_lt within inside msgs
  simp only [step, received] at stepped
  split at stepped
  · rename_i member
    rw [weight_erase member]
    split at stepped
    · cases stepped
      rw [weight_add]
      exact ⟨inside, by omega⟩
    · cases stepped
      have paid := cost_pos within msgs
      exact ⟨inside, by simp only; omega⟩
  · cases stepped

/-- A forward pays for what it brings about; only what comes in from outside adds to the weight. -/
theorem act_pays (within : ∀ topic, Within table.topics n topic) {bound : ℕ}
    (dear : ∀ msgs, cost table n msgs ≤ bound) (inside : before.stack.Inside table) {label : Act}
    (listed : label.Inside table) (acted : act before label = some (after, events)) :
    after.stack.Inside table ∧ weight table n after.inFlight + label.isForward.toNat ≤
      weight table n before.inFlight + bound * label.enters.length := by
  cases label with
  | forwards msgs =>
      obtain ⟨still, pays⟩ := step_pays within inside acted
      exact ⟨still, Nat.le_add_right_of_le pays⟩
  | publishes msgs =>
      cases acted
      refine ⟨inside, ?_⟩
      have cheap := dear msgs
      rw [weight, Multiset.map_cons, Multiset.sum_cons, ← weight]
      simp only [Act.isForward, Bool.toNat_false, Act.enters, List.length_singleton]
      omega
  | pulls msgs =>
      obtain ⟨sent, accepted, less⟩ := accept_lt within inside msgs
      simp only [act, accepted] at acted
      cases acted
      refine ⟨inside, ?_⟩
      have cheap := dear msgs
      rw [weight_add]
      simp only [Act.isForward, Bool.toNat_false, Act.enters, List.length_singleton]
      omega
  | addConversion option subTopic pubTopics =>
      cases acted
      exact ⟨addConversion_inside inside option listed, Nat.le_refl _⟩
  | removeConversion option subTopic =>
      cases acted
      exact ⟨removeConversion_inside inside option subTopic, Nat.le_refl _⟩
  | subscribe | unsubscribe =>
      cases acted
      exact ⟨inside, Nat.le_refl _⟩

variable {start final : Relay} {steps : List (Taken Relay Act Message)}

theorem run_pays (within : ∀ topic, Within table.topics n topic) {bound : ℕ}
    (dear : ∀ msgs, cost table n msgs ≤ bound) (run : Run act start steps final)
    (inside : start.stack.Inside table) (listed : ∀ taken ∈ steps, taken.label.Inside table) :
    final.stack.Inside table ∧
      steps.countP (fun taken => taken.label.isForward) + weight table n final.inFlight ≤
        weight table n start.inFlight + bound * (steps.flatMap (·.label.enters)).length := by
  induction run with
  | nil => exact ⟨inside, by simp⟩
  | @snoc steps before after label events _ acted ih =>
      simp only [List.mem_append, List.mem_singleton] at listed
      obtain ⟨now, spent⟩ := ih fun taken member => listed taken (.inl member)
      obtain ⟨still, pays⟩ := act_pays within dear now (listed ⟨before, label, events⟩ (.inr rfl)) acted
      refine ⟨still, ?_⟩
      rw [List.flatMap_append, List.length_append, List.flatMap_singleton, Nat.mul_add,
        List.countP_append, List.countP_singleton]
      cases forward : label.isForward
      · simp only [forward, Bool.toNat_false, Bool.false_eq_true, if_false] at pays ⊢
        omega
      · simp only [forward, Bool.toNat_true, if_true] at pays ⊢
        omega

theorem exists_forwarded (within : ∀ topic, Within table.topics n topic)
    (inside : start.stack.Inside table) :
    ∃ rest last, Run act start rest last ∧ (∀ taken ∈ rest, taken.label.isForward = true) ∧
      last.inFlight = 0 ∧ rest.length ≤ weight table n start.inFlight := by
  let draining : Draining act (fun label => label.isForward = true) (fun _ => Act.isForward) :=
    { holds := fun relay => relay.stack.Inside table
      left := fun relay => weight table n relay.inFlight
      pays := by
        rintro before (msgs | _ | _ | _ | _ | _ | _) after events inside forward acted
        · exact step_pays within inside acted
        all_goals cases forward }
  have moves : ∀ relay, draining.holds relay → draining.left relay ≠ 0 → ∃ label after events,
      label.isForward = true ∧ label.isForward = true ∧ act relay label = some (after, events) := by
    intro relay inside heavy
    obtain ⟨msgs, member⟩ := Multiset.exists_mem_of_ne_zero fun none : relay.inFlight = 0 =>
      heavy (by simp [draining, none, weight])
    obtain ⟨sent, received, _⟩ := receive_lt within inside msgs
    refine ⟨.forwards msgs, ?_⟩
    simp only [act, step, received, if_pos member]
    split <;> exact ⟨_, _, rfl, rfl, rfl⟩
  obtain ⟨rest, last, run, forwards, -, light, short⟩ := draining.exists_done inside moves
  refine ⟨rest, last, run, forwards, ?_, short⟩
  by_contra occupied
  obtain ⟨msgs, member⟩ := Multiset.exists_mem_of_ne_zero occupied
  have paid := cost_pos within msgs
  have weighed : weight table n last.inFlight = 0 := light
  rw [weight_erase member] at weighed
  omega

end Cost

variable {start final : Relay} {steps : List (Taken Relay Act Message)}

/-- Conversions come and go while messages are relayed, but all are of one table without a cycle. Then
each message that comes in, published or pulled, leads to a bounded number of forwards, and whatever is
under way can be forwarded to its end. -/
theorem relay_settles (table : ConversionMap)
    (acyclic : ∀ topic, ¬ TransGen (Feeds table.topics) topic topic) :
    ∃ bound, ∀ start steps final, Run act start steps final → start.stack.Inside table →
      (∀ taken ∈ steps, taken.label.Inside table) →
      ∃ rest last, Run act final rest last ∧ (∀ taken ∈ rest, taken.label.isForward = true) ∧
        last.inFlight = 0 ∧ steps.countP (fun taken => taken.label.isForward) + rest.length ≤
          bound * (start.inFlight.card + (steps.flatMap (·.label.enters)).length) := by
  obtain ⟨n, within⟩ := Worklist.exists_within_all keys_of_topics acyclic
  obtain ⟨bound, dear⟩ : ∃ bound, ∀ msgs, cost table n msgs ≤ bound :=
    ⟨_, fun msgs => Worklist.toll_le keys_of_topics n (route msgs).1⟩
  refine ⟨bound, fun start steps final run inside listed => ?_⟩
  obtain ⟨still, spent⟩ := run_pays within dear run inside listed
  obtain ⟨rest, last, onward, forwards, empty, short⟩ := exists_forwarded within still
  have initially := weight_le dear start.inFlight
  refine ⟨rest, last, onward, forwards, empty, ?_⟩
  rw [Nat.mul_add]
  omega

def oneConversion : ConversionMap := (∅ : ConversionMap).insert "topic1".toList ["topic2".toList]

theorem oneConversion_acyclic (topic : Str) : ¬ TransGen (Feeds oneConversion.topics) topic topic := by
  have edge : ∀ {before after : Str}, Feeds oneConversion.topics before after →
      before = "topic1".toList ∧ after = "topic2".toList := by
    intro before after feeds
    rw [Feeds, ConversionMap.topics, oneConversion, Table.lookup_insert] at feeds
    split at feeds
    · rename_i same
      exact ⟨same, List.mem_singleton.mp feeds⟩
    · cases feeds
  intro cycle
  obtain ⟨_, first, _⟩ := TransGen.head'_iff.mp cycle
  obtain ⟨_, _, last⟩ := TransGen.tail'_iff.mp cycle
  exact absurd ((edge first).1.symm.trans (edge last).2) (by decide)

/-- A conversion is added when the message has been published already, and removed again before what
the message was converted to has come back. -/
theorem relay_settles_added : ∃ bound steps final,
    Run act ⟨.create (fun _ => true) [] ["topic1".toList] ∅, 0⟩ steps final ∧ trace steps =
      [.publication "topic1".toList "hello".toList, .publication "topic2".toList "hello".toList] ∧
      steps.countP (fun taken => taken.label.isForward) ≤ bound := by
  obtain ⟨bound, settles⟩ := relay_settles oneConversion oneConversion_acyclic
  have computed : (exec act ⟨.create (fun _ => true) [] ["topic1".toList] ∅, 0⟩
      [.publishes (.publication "topic1".toList "hello".toList),
        .addConversion .done "topic1".toList ["topic2".toList],
        .forwards (.publication "topic1".toList "hello".toList),
        .removeConversion .done "topic1".toList,
        .forwards (.publication "topic2".toList "hello".toList)]).any (fun (steps, final) =>
      decide (trace steps = [.publication "topic1".toList "hello".toList,
        .publication "topic2".toList "hello".toList]) && (steps.flatMap (·.label.enters)).length == 1 &&
      decide (∀ taken ∈ steps, taken.label.Inside oneConversion)) = true := by
    decide +kernel
  obtain ⟨steps, final, run, checked⟩ := exists_run_of_exec computed
  simp only [Bool.and_eq_true, decide_eq_true_eq, beq_iff_eq] at checked
  obtain ⟨⟨published, entered⟩, listed⟩ := checked
  obtain ⟨rest, last, _, _, _, counted⟩ := settles _ _ _ run (fun _ => Multiset.zero_le _) listed
  rw [entered] at counted
  exact ⟨_, steps, final, run, published, Nat.le_of_add_right_le counted⟩

end Relay

end ZmqPlayground
