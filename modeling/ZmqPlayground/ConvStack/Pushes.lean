import Mathlib.Tactic.Ring
import ZmqPlayground.ConvStack.Replicas
import ZmqPlayground.ConvStack.Sources

/-! Messages that are pushed to the receivers of several instances.

The socket of a sender hands each message to one of the receivers it is connected to, whichever
that is, while a message published over the proxies reaches the subscribers of all instances.
-/

set_option autoImplicit false

namespace ZmqPlayground

open Library
open Library.Runs
open Library.Worklist (Within family Turn)
open ConvStack (receiverTopic route)

variable {replicas subscribers : ℕ}

def Copy.msgs : Copy replicas subscribers → Message
  | .toProxy _ msgs | .toReplica _ msgs | .toSubscriber _ msgs => msgs

namespace Deployment

def pulls (deployment : Deployment replicas subscribers) (replica : Fin replicas) (msgs : Message) :
    Deployment replicas subscribers × List (Copy replicas subscribers) :=
  let (stack, published) := (deployment.convStacks replica).accept .receiver msgs
  ({ deployment with convStacks := Function.update deployment.convStacks replica stack },
    published.map (.toProxy (deployment.endpoints replica)))

variable {deployment : Deployment replicas subscribers}

/-- A pushed message is converted as one of the topic of the receiver. -/
theorem pulls_sendMsg (deployment : Deployment replicas subscribers) (replica : Fin replicas)
    (sender : Sender) (calls : Reconnect) (appMsg : Str) :
    deployment.pulls replica (sender.sendMsg calls appMsg).1 =
      (deployment, ((deployment.convStacks replica).outputs receiverTopic).map fun topic =>
        .toProxy (deployment.endpoints replica) (.publication topic appMsg)) := by
  have routed : route (sender.sendMsg calls appMsg).1 = (receiverTopic, appMsg) := ConvStack.route_single rfl
  simp only [pulls, ConvStack.accept, ConvStack.conversion_receiver, routed, ConvStack.convert_eq,
    Function.update_eq_self, ZmqStack.publish, List.map_map]
  rfl

theorem arrivals_of_payload {n : ℕ} {subscriber : Fin subscribers} {topic msg : Str}
    {copy : Copy replicas subscribers} {next other : Str} (publication : copy.msgs = .publication next other)
    (different : other ≠ msg) : deployment.arrivals n subscriber topic msg copy = 0 := by
  apply Multiset.count_eq_zero_of_notMem
  intro member
  obtain ⟨_, same⟩ := Worklist.offspring_induction
    (fun copy => ∃ next, copy.msgs = .publication next other) (fun copy holds added feeds => by
      obtain ⟨next, publication⟩ := holds
      cases copy with
      | toProxy proxy forwarded =>
          obtain rfl : forwarded = .publication next other := publication
          rcases mem_forwarded feeds with ⟨replica, rfl⟩ | ⟨subscriber, rfl⟩
          all_goals exact ⟨next, rfl⟩
      | toReplica replica received =>
          obtain rfl : received = .publication next other := publication
          rw [sends_replica] at feeds
          split at feeds
          · obtain ⟨topic, -, rfl⟩ := List.mem_map.mp feeds
            exact ⟨topic, rfl⟩
          · cases feeds
      | toSubscriber => cases feeds) ⟨next, publication⟩ _ member
  exact different (Message.publication_inj.mp same).2.symm

theorem Replicated.arrivals_output {proxies : List Str} {conversions : ConversionMap} {filters : Filters}
    {key : Str} {topics : List Str} (replicated : Replicated deployment proxies conversions filters)
    (once : ConvertsOnce conversions filters key topics) {subscriber : Fin subscribers} {topic : Str}
    (wanted : Matches (deployment.sockets subscriber).filters topic) {proxy next : Str}
    (known : proxy ∈ proxies) (listed : next ∈ topics) (msg : Str) :
    deployment.arrivals 3 subscriber topic msg (.toProxy proxy (.publication next msg)) =
      if next = topic then 1 else 0 := by
  obtain ⟨forwarded, -, -⟩ := replicated.within once msg
  have unmapped := fun replica => (replicated.outputs once replica).2 next listed
  have single : (deployment.sockets subscriber).copies proxy (.publication topic msg) = 1 :=
    (if_pos wanted).trans (replicated.sockets subscriber proxy known)
  rw [arrivals_proxy ((forwarded proxy next listed).mono (by omega)), single]
  simp [arrivals_of_unmapped (unmapped _)]

end Deployment

namespace Network

open Deployment

/-- A copy arrives, or a message comes from outside: published through a proxy, or pushed to the
receiver of one instance. -/
inductive Act (replicas subscribers : ℕ) where
  | arrives (copy : Copy replicas subscribers)
  | publishes (proxy : Str) (msgs : Message)
  | pushes (replica : Fin replicas) (sender : Sender) (calls : Reconnect) (appMsg : Str)
  deriving DecidableEq

def act : Step (Network replicas subscribers) (Act replicas subscribers) (Copy replicas subscribers)
  | network, .arrives copy => step network copy
  | network, .publishes proxy msgs =>
      let sent : List (Copy replicas subscribers) := [.toProxy proxy msgs]
      some ({ network with inFlight := network.inFlight + sent }, sent)
  | network, .pushes replica sender calls appMsg =>
      let (deployment, sent) := network.deployment.pulls replica (sender.sendMsg calls appMsg).1
      some (⟨deployment, network.inFlight + sent⟩, sent)

def Act.turn (deployment : Deployment replicas subscribers) :
    Act replicas subscribers → Turn (Copy replicas subscribers)
  | .arrives copy => .takes copy
  | .publishes proxy msgs => .adds [.toProxy proxy msgs]
  | .pushes replica sender calls appMsg =>
      .adds (deployment.pulls replica (sender.sendMsg calls appMsg).1).2

/-- The copies in flight of a deployment that stays as it is. -/
def fed (deployment : Deployment replicas subscribers) :
    Step (Multiset (Copy replicas subscribers)) (Act replicas subscribers) (Copy replicas subscribers) :=
  fun inFlight act => Worklist.feed deployment.sends inFlight (act.turn deployment)

theorem act_eq_fed (deployment : Deployment replicas subscribers)
    (inFlight : Multiset (Copy replicas subscribers)) (act : Act replicas subscribers) :
    Network.act ⟨deployment, inFlight⟩ act =
      (fed deployment inFlight act).map (Prod.map (Network.mk deployment) id) := by
  cases act with
  | arrives copy => exact step_eq_worklist deployment inFlight copy
  | publishes proxy msgs => rfl
  | pushes replica sender calls appMsg =>
      simp only [Network.act, fed, Act.turn, pulls_sendMsg]
      rfl

def Act.isPublished (msg : Str) : Act replicas subscribers → Bool
  | .publishes _ msgs => msgs = .publication receiverTopic msg
  | .arrives _ | .pushes _ _ _ _ => false

def Act.isPushed (msg : Str) : Act replicas subscribers → Bool
  | .pushes _ _ _ appMsg => appMsg = msg
  | .arrives _ | .publishes _ _ => false

def Act.Enters (proxies : List Str) : Act replicas subscribers → Prop
  | .publishes proxy msgs => proxy ∈ proxies ∧ ∃ msg, msgs = .publication receiverTopic msg
  | .arrives _ | .pushes _ _ _ _ => True

section Superposition
variable {deployment : Deployment replicas subscribers} {proxies : List Str} {conversions : ConversionMap}
  {filters : Filters} {topics : List Str} {subscriber : Fin subscribers} {topic msg : Str}

theorem within_added (replicated : Replicated deployment proxies conversions filters)
    (once : ConvertsOnce conversions filters receiverTopic topics) {act : Act replicas subscribers}
    (enters : act.Enters proxies) :
    ∀ copy ∈ (act.turn deployment).added, Within deployment.sends 3 copy := by
  cases act with
  | arrives => exact fun copy member => absurd member List.not_mem_nil
  | publishes proxy msgs =>
      obtain ⟨-, payload, rfl⟩ := enters
      intro copy member
      obtain rfl := List.mem_singleton.mp member
      exact (replicated.within once payload).2.2 proxy
  | pushes replica sender calls appMsg =>
      intro copy member
      rw [Act.turn, pulls_sendMsg, (replicated.outputs once replica).1] at member
      obtain ⟨next, listed, rfl⟩ := List.mem_map.mp member
      exact ((replicated.within once appMsg).1 _ next listed).mono (by omega)

theorem sum_added (replicated : Replicated deployment proxies conversions filters)
    (once : ConvertsOnce conversions filters receiverTopic topics) (listed : topic ∈ topics)
    (wanted : Matches (deployment.sockets subscriber).filters topic) {act : Act replicas subscribers}
    (enters : act.Enters proxies) :
    (((act.turn deployment).added.map fun copy =>
      (family deployment.sends 3 copy).count (.toSubscriber subscriber (.publication topic msg))).sum) =
      topics.count topic * (replicas * (act.isPublished msg).toNat + (act.isPushed msg).toNat) := by
  have proxied (proxy : Str) (msgs : Message) : (family deployment.sends 3 (.toProxy proxy msgs)).count
      (.toSubscriber subscriber (.publication topic msg)) =
        deployment.arrivals 3 subscriber topic msg (.toProxy proxy msgs) :=
    Multiset.count_cons_of_ne (by simp) _
  cases act with
  | arrives => simp [Act.turn, Turn.added, Act.isPublished, Act.isPushed]
  | publishes proxy msgs =>
      obtain ⟨entry, payload, rfl⟩ := enters
      simp only [Act.turn, Turn.added, List.map_singleton, List.sum_singleton, proxied, Act.isPublished,
        Act.isPushed, Message.publication_inj, true_and]
      by_cases same : payload = msg
      · subst same
        rw [replicated.arrivals once listed wanted entry]
        simp [Nat.mul_comm]
      · rw [arrivals_of_payload rfl same]
        simp [same]
  | pushes replica sender calls appMsg =>
      simp only [Act.turn, pulls_sendMsg, Turn.added, List.map_map, (replicated.outputs once replica).1,
        Act.isPublished, Act.isPushed, Function.comp_def, proxied]
      by_cases same : appMsg = msg
      · subst same
        have each := List.map_congr_left fun next (member : next ∈ topics) =>
          replicated.arrivals_output once wanted (replicated.endpoints replica) member appMsg
        rw [each, sum_map_eq_count]
        simp
      · have silent : ∀ next ∈ topics, deployment.arrivals 3 subscriber topic msg
            (.toProxy (deployment.endpoints replica) (.publication next appMsg)) = 0 :=
          fun next _ => arrivals_of_payload rfl same
        rw [List.map_congr_left silent]
        simp [same]

theorem sum_labels (replicated : Replicated deployment proxies conversions filters)
    (once : ConvertsOnce conversions filters receiverTopic topics) (listed : topic ∈ topics)
    (wanted : Matches (deployment.sockets subscriber).filters topic) (acts : List (Act replicas subscribers))
    (enter : ∀ act ∈ acts, act.Enters proxies) :
    ((acts.flatMap fun act => (act.turn deployment).added).map fun copy =>
      (family deployment.sends 3 copy).count (.toSubscriber subscriber (.publication topic msg))).sum =
      topics.count topic * (replicas * acts.countP (Act.isPublished msg) + acts.countP (Act.isPushed msg)) := by
  induction acts with
  | nil => simp
  | cons act acts ih =>
      rw [List.flatMap_cons, List.map_append, List.sum_append,
        sum_added replicated once listed wanted (enter act List.mem_cons_self),
        ih fun other member => enter other (List.mem_cons_of_mem _ member), List.countP_cons, List.countP_cons]
      cases act.isPublished msg <;> cases act.isPushed msg
      all_goals
        simp only [Bool.toNat_true, Bool.toNat_false, if_true, Bool.false_eq_true, if_false]
        ring

theorem count_taken (deployment : Deployment replicas subscribers)
    (acts : List (Act replicas subscribers)) (copy : Copy replicas subscribers) :
    (acts.flatMap fun act => (act.turn deployment).taken).count copy = acts.count (.arrives copy) := by
  induction acts with
  | nil => rfl
  | cons act acts ih =>
      rw [List.flatMap_cons, List.count_append, ih, List.count_cons, add_comm]
      cases act with
      | arrives other => simp [Act.turn, Turn.taken, List.count_singleton]
      | publishes | pushes => simp [Act.turn, Turn.taken]

theorem exists_arrived {inFlight : Multiset (Copy replicas subscribers)}
    (within : ∀ copy ∈ inFlight, Within deployment.sends 3 copy) :
    ∃ rest last, Run act ⟨deployment, inFlight⟩ rest last ∧
      (∀ taken ∈ rest, ∃ copy, taken.label = .arrives copy) ∧ last.inFlight = 0 := by
  obtain ⟨worked, works⟩ := Worklist.exists_emptied within
  have arrives : Run (fed deployment) inFlight (worked.map (Taken.relabel Act.arrives)) 0 :=
    Run.relabel (fun _ _ => rfl) works
  refine ⟨_, _, Run.map (act_eq_fed deployment) arrives, fun taken member => ?_, rfl⟩
  rw [List.map_map] at member
  obtain ⟨step, -, rfl⟩ := List.mem_map.mp member
  exact ⟨step.label, rfl⟩

end Superposition

end Network

end ZmqPlayground
