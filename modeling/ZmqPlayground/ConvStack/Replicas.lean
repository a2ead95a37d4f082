import Mathlib.Algebra.BigOperators.Fin
import ZmqPlayground.ConvStack.Relay

/-! Several instances of the converting stack behind several proxies.

A publisher is connected to one proxy, a subscriber to any number of them, and a proxy
forwards a message over every connection of a socket with a filter that lets it in.
Every instance that has the message converts it.
-/

set_option autoImplicit false

namespace ZmqPlayground

open Library
open Library.Runs

def SubSocket.copies (socket : SubSocket) (proxy : Str) (msgs : Message) : ℕ :=
  if Matches socket.filters msgs.first then socket.connected.count proxy else 0

inductive Copy (replicas subscribers : ℕ) where
  | toProxy (proxy : Str) (msgs : Message)
  | toReplica (replica : Fin replicas) (msgs : Message)
  | toSubscriber (subscriber : Fin subscribers) (msgs : Message)
  deriving DecidableEq

structure Deployment (replicas subscribers : ℕ) where
  convStacks : Fin replicas → ConvStack
  /-- The proxy the publisher of each instance is connected to. -/
  endpoints : Fin replicas → Str
  sockets : Fin subscribers → SubSocket

variable {replicas subscribers : ℕ}

namespace Deployment

def forwarded (deployment : Deployment replicas subscribers) (proxy : Str) (msgs : Message) :
    List (Copy replicas subscribers) :=
  (List.finRange replicas).flatMap (fun replica =>
      List.replicate ((deployment.convStacks replica).socket.copies proxy msgs) (.toReplica replica msgs)) ++
    (List.finRange subscribers).flatMap fun subscriber =>
      List.replicate ((deployment.sockets subscriber).copies proxy msgs) (.toSubscriber subscriber msgs)

def sends (deployment : Deployment replicas subscribers) :
    Copy replicas subscribers → List (Copy replicas subscribers)
  | .toProxy proxy msgs => deployment.forwarded proxy msgs
  | .toReplica replica msgs =>
      ((deployment.convStacks replica).receive msgs).2.map (.toProxy (deployment.endpoints replica))
  | .toSubscriber _ _ => []

def receives (deployment : Deployment replicas subscribers) :
    Copy replicas subscribers → Deployment replicas subscribers
  | .toReplica replica msgs =>
      let (stack, _) := (deployment.convStacks replica).receive msgs
      { deployment with convStacks := Function.update deployment.convStacks replica stack }
  | .toProxy _ _ | .toSubscriber _ _ => deployment

theorem receives_eq (deployment : Deployment replicas subscribers) (copy : Copy replicas subscribers) :
    deployment.receives copy = deployment := by
  cases copy with
  | toReplica replica msgs => simp [receives, ConvStack.receive_outputs]
  | toProxy | toSubscriber => rfl

/-- The instances run one map behind one set of filters. Every publisher is connected to one of the proxies,
and every subscriber once to each. -/
structure Replicated (deployment : Deployment replicas subscribers) (proxies : List Str)
    (conversions : ConversionMap) (filters : Filters) : Prop where
  conversionMap : ∀ replica, (deployment.convStacks replica).conversionMap = conversions
  filters : ∀ replica, (deployment.convStacks replica).socket.filters = filters
  endpoints : ∀ replica, deployment.endpoints replica ∈ proxies
  convStacks : ∀ replica, ∀ proxy ∈ proxies, (deployment.convStacks replica).socket.connected.count proxy = 1
  sockets : ∀ subscriber, ∀ proxy ∈ proxies, (deployment.sockets subscriber).connected.count proxy = 1

variable {deployment : Deployment replicas subscribers}

theorem sends_replica (replica : Fin replicas) (topic msg : Str) :
    deployment.sends (.toReplica replica (.publication topic msg)) =
      (if Subscriber.kind topic = .application then (deployment.convStacks replica).outputs topic else []).map
        fun next => .toProxy (deployment.endpoints replica) (.publication next msg) := by
  rw [sends, ConvStack.receive_outputs]
  exact List.map_map

theorem mem_forwarded {proxy : Str} {msgs : Message} {copy : Copy replicas subscribers}
    (member : copy ∈ deployment.forwarded proxy msgs) :
    (∃ replica, copy = .toReplica replica msgs) ∨ ∃ subscriber, copy = .toSubscriber subscriber msgs := by
  rcases List.mem_append.mp member with first | second
  · obtain ⟨replica, -, same⟩ := List.mem_flatMap.mp first
    exact .inl ⟨replica, List.eq_of_mem_replicate same⟩
  · obtain ⟨subscriber, -, same⟩ := List.mem_flatMap.mp second
    exact .inr ⟨subscriber, List.eq_of_mem_replicate same⟩

theorem sum_replicate_finRange {n : ℕ} (copies : Fin n → ℕ) (target : Fin n → Copy replicas subscribers)
    (weight : Copy replicas subscribers → ℕ) :
    (((List.finRange n).flatMap fun i => List.replicate (copies i) (target i)).map weight).sum =
      ∑ i, copies i * weight (target i) := by
  rw [List.flatMap, List.map_flatten, List.sum_flatten, List.map_map, List.map_map, Fin.sum_univ_def]
  congr 1
  apply List.map_congr_left
  intro i _
  simp

theorem sum_forwarded (proxy : Str) (msgs : Message) (weight : Copy replicas subscribers → ℕ) :
    ((deployment.forwarded proxy msgs).map weight).sum =
      ∑ replica, (deployment.convStacks replica).socket.copies proxy msgs * weight (.toReplica replica msgs) +
        ∑ subscriber, (deployment.sockets subscriber).copies proxy msgs * weight (.toSubscriber subscriber msgs) := by
  rw [forwarded, List.map_append, List.sum_append, sum_replicate_finRange, sum_replicate_finRange]

theorem within_proxy {n : ℕ} {proxy : Str} {msgs : Message}
    (each : ∀ replica, Worklist.Within deployment.sends n (.toReplica replica msgs)) :
    Worklist.Within deployment.sends (n + 1) (.toProxy proxy msgs) := by
  intro copy member
  rcases mem_forwarded member with ⟨replica, rfl⟩ | ⟨subscriber, rfl⟩
  · exact each replica
  · have ends : Worklist.Within deployment.sends 0 (.toSubscriber subscriber msgs) := rfl
    exact ends.mono (Nat.zero_le n)

theorem within_replica {n : ℕ} {replica : Fin replicas} {topic msg : Str}
    (each : ∀ next ∈ (deployment.convStacks replica).outputs topic,
      Worklist.Within deployment.sends n (.toProxy (deployment.endpoints replica) (.publication next msg))) :
    Worklist.Within deployment.sends (n + 1) (.toReplica replica (.publication topic msg)) := by
  intro copy member
  rw [sends_replica] at member
  split at member
  · obtain ⟨next, listed, rfl⟩ := List.mem_map.mp member
    exact each next listed
  · cases member

section Arrivals
variable {n : ℕ} {subscriber : Fin subscribers} {topic msg : Str}

/-- How often a message on the topic is forwarded to the subscriber because of a copy. -/
def arrivals (deployment : Deployment replicas subscribers) (n : ℕ) (subscriber : Fin subscribers)
    (topic msg : Str) (copy : Copy replicas subscribers) : ℕ :=
  (Worklist.offspring deployment.sends n copy).count (.toSubscriber subscriber (.publication topic msg))

theorem arrivals_of_unmapped {replica : Fin replicas} {other : Str}
    (unmapped : (deployment.convStacks replica).outputs other = []) :
    deployment.arrivals n subscriber topic msg (.toReplica replica (.publication other msg)) = 0 := by
  have silent : deployment.sends (.toReplica replica (.publication other msg)) = [] := by
    rw [sends_replica, unmapped]
    split <;> rfl
  rw [arrivals, Worklist.offspring_eq_zero silent]
  rfl

theorem arrivals_proxy {proxy other : Str}
    (within : Worklist.Within deployment.sends n (.toProxy proxy (.publication other msg))) :
    deployment.arrivals n subscriber topic msg (.toProxy proxy (.publication other msg)) =
      ∑ replica, (deployment.convStacks replica).socket.copies proxy (.publication other msg) *
          deployment.arrivals n subscriber topic msg (.toReplica replica (.publication other msg)) +
        if other = topic then (deployment.sockets subscriber).copies proxy (.publication topic msg) else 0 := by
  rw [arrivals, Worklist.count_offspring within, sends, sum_forwarded]
  congr 1
  · apply Finset.sum_congr rfl
    intro replica _
    simp [arrivals]
  · have silent : ∀ receiver, Worklist.offspring deployment.sends n
        (.toSubscriber receiver (.publication other msg)) = 0 :=
      fun receiver => Worklist.offspring_eq_zero rfl n
    simp only [silent, Multiset.count_zero, add_zero, Copy.toSubscriber.injEq, Message.publication_inj, and_true]
    split
    · rename_i same
      simp [same]
    · rename_i different
      simp [different]

theorem arrivals_replica {replica : Fin replicas} {key : Str} (application : Subscriber.kind key = .application)
    (within : Worklist.Within deployment.sends n (.toReplica replica (.publication key msg))) :
    deployment.arrivals n subscriber topic msg (.toReplica replica (.publication key msg)) =
      (((deployment.convStacks replica).outputs key).map fun next => deployment.arrivals n subscriber topic msg
        (.toProxy (deployment.endpoints replica) (.publication next msg))).sum := by
  rw [arrivals, Worklist.count_offspring within, sends_replica, if_pos application, List.map_map]
  congr 1
  apply List.map_congr_left
  intro next _
  simp [arrivals]

end Arrivals

/-- Messages on the key are converted to the topics, and messages on these are not converted again. -/
structure ConvertsOnce (conversions : ConversionMap) (filters : Filters) (key : Str) (topics : List Str) : Prop where
  listed : conversions.lookup key = some topics
  final : ∀ topic ∈ topics, conversions.lookup topic = none
  received : Matches filters key
  application : Subscriber.kind key = .application

section Replicated
variable {proxies : List Str} {conversions : ConversionMap} {filters : Filters} {key : Str} {topics : List Str}

theorem Replicated.outputs (replicated : Replicated deployment proxies conversions filters)
    (once : ConvertsOnce conversions filters key topics) (replica : Fin replicas) :
    (deployment.convStacks replica).outputs key = topics ∧
      ∀ topic ∈ topics, (deployment.convStacks replica).outputs topic = [] := by
  simp only [ConvStack.outputs, replicated.conversionMap replica]
  constructor
  · rw [once.listed, Option.getD_some]
  · intro topic member
    rw [once.final topic member, Option.getD_none]

theorem Replicated.within (replicated : Replicated deployment proxies conversions filters)
    (once : ConvertsOnce conversions filters key topics) (msg : Str) :
    (∀ proxy, ∀ topic ∈ topics, Worklist.Within deployment.sends 1 (.toProxy proxy (.publication topic msg))) ∧
      (∀ replica, Worklist.Within deployment.sends 2 (.toReplica replica (.publication key msg))) ∧
      ∀ proxy, Worklist.Within deployment.sends 3 (.toProxy proxy (.publication key msg)) := by
  -- A message on the key takes three steps more until nothing is left to convert.
  have last : ∀ replica, ∀ topic ∈ topics,
      Worklist.Within deployment.sends 0 (.toReplica replica (.publication topic msg)) := by
    intro replica topic member
    rw [Worklist.Within, sends_replica, (replicated.outputs once replica).2 topic member]
    split <;> rfl
  have forwarded : ∀ proxy, ∀ topic ∈ topics,
      Worklist.Within deployment.sends 1 (.toProxy proxy (.publication topic msg)) :=
    fun proxy topic member => within_proxy fun replica => last replica topic member
  have converted : ∀ replica, Worklist.Within deployment.sends 2 (.toReplica replica (.publication key msg)) := by
    intro replica
    apply within_replica
    rw [(replicated.outputs once replica).1]
    exact forwarded _
  exact ⟨forwarded, converted, fun proxy => within_proxy converted⟩

theorem sum_map_eq_count (topics : List Str) (topic : Str) :
    (topics.map fun next => if next = topic then 1 else 0).sum = topics.count topic := by
  induction topics with
  | nil => rfl
  | cons first rest ih =>
      rw [List.map_cons, List.sum_cons, ih, List.count_cons, add_comm]
      simp

theorem Replicated.arrivals (replicated : Replicated deployment proxies conversions filters)
    (once : ConvertsOnce conversions filters key topics) {subscriber : Fin subscribers} {topic : Str}
    (listed : topic ∈ topics) (wanted : Matches (deployment.sockets subscriber).filters topic) {proxy : Str}
    (entry : proxy ∈ proxies) (msg : Str) :
    deployment.arrivals 3 subscriber topic msg (.toProxy proxy (.publication key msg)) =
      replicas * topics.count topic := by
  obtain ⟨forwarded, converted, within⟩ := replicated.within once msg
  have delivered : ∀ proxy ∈ proxies, ∀ next ∈ topics,
      deployment.arrivals 3 subscriber topic msg (.toProxy proxy (.publication next msg)) =
        if next = topic then 1 else 0 := by
    intro proxy known next member
    have unmapped := fun replica => (replicated.outputs once replica).2 next member
    have single : (deployment.sockets subscriber).copies proxy (.publication topic msg) = 1 :=
      (if_pos wanted).trans (replicated.sockets subscriber proxy known)
    rw [arrivals_proxy ((forwarded proxy next member).mono (by omega)), single]
    simp [arrivals_of_unmapped (unmapped _)]
  have published : ∀ replica, deployment.arrivals 3 subscriber topic msg
      (.toReplica replica (.publication key msg)) = topics.count topic := by
    intro replica
    rw [arrivals_replica once.application ((converted replica).mono (by omega)),
      (replicated.outputs once replica).1, ← sum_map_eq_count]
    congr 1
    exact List.map_congr_left (delivered _ (replicated.endpoints replica))
  have other : key ≠ topic := by
    rintro rfl
    have absent := once.final key listed
    rw [once.listed] at absent
    cases absent
  have copied : ∀ replica, (deployment.convStacks replica).socket.copies proxy (.publication key msg) = 1 := by
    intro replica
    rw [SubSocket.copies, replicated.filters replica]
    exact (if_pos once.received).trans (replicated.convStacks replica proxy entry)
  rw [arrivals_proxy (within proxy), if_neg other]
  simp [published, copied]

end Replicated

end Deployment

structure Network (replicas subscribers : ℕ) where
  deployment : Deployment replicas subscribers
  inFlight : Multiset (Copy replicas subscribers)

namespace Network

open Deployment

def step : Step (Network replicas subscribers) (Copy replicas subscribers) (Copy replicas subscribers) :=
  fun network copy =>
    if copy ∈ network.inFlight then
      let sent := network.deployment.sends copy
      some (⟨network.deployment.receives copy, network.inFlight.erase copy + sent⟩, sent)
    else none

theorem step_eq_worklist (deployment : Deployment replicas subscribers)
    (inFlight : Multiset (Copy replicas subscribers)) (copy : Copy replicas subscribers) :
    step ⟨deployment, inFlight⟩ copy =
      (Worklist.step deployment.sends inFlight copy).map (Prod.map (Network.mk deployment) id) := by
  rw [step, Worklist.step]
  split
  · simp [receives_eq]
  · rfl

/-- One message is published on a key that all instances convert. Nothing is in flight in the end, in whatever
order copies arrive, and every subscriber of an output topic has then got it from every instance, as often as the
topic is in the list. -/
theorem arrivals_replicated {deployment : Deployment replicas subscribers} {proxies : List Str}
    {conversions : ConversionMap} {filters : Filters} {key : Str} {topics : List Str} {subscriber : Fin subscribers}
    {topic proxy : Str} (replicated : Replicated deployment proxies conversions filters)
    (once : ConvertsOnce conversions filters key topics) (listed : topic ∈ topics)
    (wanted : topic ∈ (deployment.sockets subscriber).filters) (entry : proxy ∈ proxies) (msg : Str) :
    ∃ bound, ∀ steps final, Run step ⟨deployment, {.toProxy proxy (.publication key msg)}⟩ steps final →
      steps.length ≤ bound ∧ (∀ copy ∈ final.inFlight, (step final copy).isSome = true) ∧
      (final.inFlight = 0 →
        (steps.map (·.label)).count (.toSubscriber subscriber (.publication topic msg)) =
          replicas * topics.count topic) := by
  obtain ⟨-, -, within⟩ := replicated.within once msg
  refine ⟨1 + (Worklist.offspring deployment.sends 3 (.toProxy proxy (.publication key msg))).card,
    fun steps final run => ?_⟩
  obtain ⟨worked, inFlight, works, rfl, rfl⟩ := Run.of_map (step_eq_worklist deployment) run
  obtain ⟨short, -, complete⟩ := Worklist.run_complete (within proxy) works
  rw [List.length_map, List.map_map]
  refine ⟨short, fun copy member => ?_, fun empty => ?_⟩
  · rw [step, if_pos member]
    rfl
  · have taken : worked.map ((·.label) ∘ Taken.map (Network.mk deployment)) = worked.map (·.label) := rfl
    have other : (Copy.toSubscriber subscriber (.publication topic msg) : Copy replicas subscribers) ≠
        .toProxy proxy (.publication key msg) := by simp
    rw [taken, ← Multiset.coe_count, (complete empty).2, Multiset.count_cons_of_ne other]
    exact replicated.arrivals once listed ⟨topic, wanted, List.prefix_refl _⟩ entry msg

def firstProxy : Str := "tcp://zmq-xpub-proxy-0:9200".toList

def secondProxy : Str := "tcp://zmq-xpub-proxy-1:9200".toList

def sampleKey : Str := "stack-a-ingress".toList

def sampleTopic : Str := "stack-b-egress".toList

def sampleDeployment (replicas : ℕ) (key : Str) (topics : List Str) : Deployment replicas 1 where
  convStacks _ := .create (fun _ => true) [firstProxy, secondProxy] [key] ((∅ : ConversionMap).insert key topics)
  endpoints replica := if replica.val = 0 then firstProxy else secondProxy
  sockets _ := Subscriber.setUp (fun _ => true) [firstProxy, secondProxy] [sampleTopic]

theorem sample_replicated (replicas : ℕ) (key : Str) (topics : List Str) :
    (sampleDeployment replicas key topics).Replicated [firstProxy, secondProxy]
      ((∅ : ConversionMap).insert key topics) {key, ctrlTopic, welcomeTopic} := by
  have distinct : ∀ proxy ∈ [firstProxy, secondProxy], [firstProxy, secondProxy].count proxy = 1 := by decide
  refine ⟨fun _ => rfl, fun _ => rfl, fun replica => ?_, fun _ => distinct, fun _ => distinct⟩
  rw [sampleDeployment]
  by_cases zero : replica.val = 0
  · simp [zero]
  · simp [zero]

/-- Two instances, and a topic that is listed twice. -/
theorem arrivals_replicated_twice : ∃ steps final,
    Run step ⟨sampleDeployment 2 sampleKey [sampleTopic, sampleTopic],
      {.toProxy firstProxy (.publication sampleKey [])}⟩ steps final ∧ final.inFlight = 0 ∧
      (steps.map (·.label)).count (.toSubscriber 0 (.publication sampleTopic [])) = 4 := by
  have computed : (exec step
      ⟨sampleDeployment 2 sampleKey [sampleTopic, sampleTopic], {.toProxy firstProxy (.publication sampleKey [])}⟩
      [.toProxy firstProxy (.publication sampleKey []), .toReplica 1 (.publication sampleKey []),
        .toReplica 0 (.publication sampleKey []), .toProxy secondProxy (.publication sampleTopic []),
        .toProxy firstProxy (.publication sampleTopic []), .toSubscriber 0 (.publication sampleTopic []),
        .toProxy secondProxy (.publication sampleTopic []), .toProxy firstProxy (.publication sampleTopic []),
        .toSubscriber 0 (.publication sampleTopic []), .toSubscriber 0 (.publication sampleTopic []),
        .toSubscriber 0 (.publication sampleTopic [])]).any
      (fun (_, final) => decide (final.inFlight = 0)) = true := by
    decide +kernel
  obtain ⟨steps, final, run, checked⟩ := exists_run_of_exec computed
  have settled := of_decide_eq_true checked
  have once : ConvertsOnce ((∅ : ConversionMap).insert sampleKey [sampleTopic, sampleTopic])
      {sampleKey, ctrlTopic, welcomeTopic} sampleKey [sampleTopic, sampleTopic] :=
    ⟨by decide, by decide, by decide, by decide⟩
  have wanted : sampleTopic ∈ ((sampleDeployment 2 sampleKey [sampleTopic, sampleTopic]).sockets 0).filters := by
    decide
  obtain ⟨_, arrives⟩ :=
    arrivals_replicated (sample_replicated 2 _ _) once List.mem_cons_self wanted List.mem_cons_self []
  exact ⟨steps, final, run, settled, (arrives steps final run).2.2 settled⟩

/-- Two instances deliver what is listed once twice, and a control message is not converted by any. -/
theorem copies_multiply :
    (∃ steps final, Run step ⟨sampleDeployment 2 sampleKey [sampleTopic],
        {.toProxy firstProxy (.publication sampleKey [])}⟩ steps final ∧ final.inFlight = 0 ∧
      (steps.map (·.label)).count (.toSubscriber 0 (.publication sampleTopic [])) = 2) ∧
    ∃ steps final, Run step ⟨sampleDeployment 1 ctrlTopic [sampleTopic],
        {.toProxy firstProxy (.publication ctrlTopic [])}⟩ steps final ∧ final.inFlight = 0 ∧
      (steps.map (·.label)).count (.toSubscriber 0 (.publication sampleTopic [])) = 0 := by
  have doubled : (exec step
      ⟨sampleDeployment 2 sampleKey [sampleTopic], {.toProxy firstProxy (.publication sampleKey [])}⟩
      [.toProxy firstProxy (.publication sampleKey []), .toReplica 0 (.publication sampleKey []),
        .toReplica 1 (.publication sampleKey []), .toProxy firstProxy (.publication sampleTopic []),
        .toProxy secondProxy (.publication sampleTopic []), .toSubscriber 0 (.publication sampleTopic []),
        .toSubscriber 0 (.publication sampleTopic [])]).any
      (fun (steps, final) => decide (final.inFlight = 0) &&
        decide ((steps.map (·.label)).count (.toSubscriber 0 (.publication sampleTopic [])) = 2)) = true := by
    decide +kernel
  have dropped : (exec step
      ⟨sampleDeployment 1 ctrlTopic [sampleTopic], {.toProxy firstProxy (.publication ctrlTopic [])}⟩
      [.toProxy firstProxy (.publication ctrlTopic []), .toReplica 0 (.publication ctrlTopic []),
        .toSubscriber 0 (.publication ctrlTopic [])]).any
      (fun (steps, final) => decide (final.inFlight = 0) &&
        decide ((steps.map (·.label)).count (.toSubscriber 0 (.publication sampleTopic [])) = 0)) = true := by
    decide +kernel
  obtain ⟨steps, final, run, checked⟩ := exists_run_of_exec doubled
  obtain ⟨steps', final', run', checked'⟩ := exists_run_of_exec dropped
  simp only [Bool.and_eq_true, decide_eq_true_eq] at checked checked'
  exact ⟨⟨steps, final, run, checked⟩, steps', final', run', checked'⟩

end Network

end ZmqPlayground
