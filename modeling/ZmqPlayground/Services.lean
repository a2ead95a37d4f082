import ZmqPlayground.Common.Instances
import ZmqPlayground.ConvStack.Pushes
import ZmqPlayground.Delivery

/-! The instances of the TCP stack in a deployment, wired by the table of the converting stacks.

Each of them publishes what its clients send on a topic of its own and listens to another
one. The table of the converting stacks says which of these a message goes on to.
-/

set_option autoImplicit false

namespace ZmqPlayground

open Library
open Library.Numerals
open Library.Runs
open Library.Worklist (Within family Turn)
open Deployment

/-- What an instance is started with: its configured name and its host name. -/
structure Pod where
  name : Str
  set : Str
  ordinal : UInt32
  deriving DecidableEq

namespace Pod

def service (pod : Pod) : Service := .main pod.name (hostname pod.set pod.ordinal)

def ingress (pod : Pod) : Str := ZmqPlayground.ingress pod.service.name

def egress (pod : Pod) : Str := ZmqPlayground.egress pod.service.name

/-- Instances of one name have different numbers. Another name is not continued by a dash. -/
def Apart (pod other : Pod) : Prop :=
  if pod.name = other.name then pod.ordinal ≠ other.ordinal
  else ¬ pod.name ++ ['-'] <+: other.name ++ ['-']

instance (pod other : Pod) : Decidable (pod.Apart other) :=
  inferInstanceAs (Decidable (if pod.name = other.name then pod.ordinal ≠ other.ordinal else ¬ _))

/-- No internal topic begins the name. -/
def Unreserved (pod : Pod) : Prop := ∀ internal ∈ ZmqStack.internalTopics, ¬ internal <+: pod.name

instance (pod : Pod) : Decidable pod.Unreserved :=
  inferInstanceAs (Decidable (∀ internal ∈ ZmqStack.internalTopics, ¬ internal <+: pod.name))

theorem ingress_eq (pod : Pod) :
    pod.ingress = pod.name ++ '-' :: (numeral pod.ordinal.toNat ++ '-' :: "ingress".toList) := by
  rw [ingress, service, name_main]
  simp [ZmqPlayground.ingress, hostname]

theorem egress_eq (pod : Pod) :
    pod.egress = pod.name ++ '-' :: (numeral pod.ordinal.toNat ++ '-' :: "egress".toList) := by
  rw [egress, service, name_main]
  simp [ZmqPlayground.egress, hostname]

def Topic (pod : Pod) (topic : Str) : Prop := topic = pod.ingress ∨ topic = pod.egress

theorem Topic.eq {pod : Pod} {topic : Str} (own : pod.Topic topic) :
    ∃ rest, topic = pod.name ++ '-' :: (numeral pod.ordinal.toNat ++ '-' :: rest) := by
  rcases own with rfl | rfl
  · exact ⟨_, pod.ingress_eq⟩
  · exact ⟨_, pod.egress_eq⟩

theorem Apart.not_begins {pod other : Pod} (apart : pod.Apart other) (back : other.Apart pod) {topic theirs : Str}
    (own : pod.Topic topic) (foreign : other.Topic theirs) : ¬ topic <+: theirs := by
  intro begins
  obtain ⟨rest, rfl⟩ := own.eq
  obtain ⟨more, rfl⟩ := foreign.eq
  by_cases same : pod.name = other.name
  · rw [Apart, if_pos same] at apart
    rw [same, List.prefix_append_right_inj, List.prefix_cons_inj] at begins
    exact apart (UInt32.toNat_inj.mp (eq_of_numeral_begins (by decide) (by decide) begins))
  · rw [Apart, if_neg same] at apart
    rw [Apart, if_neg (Ne.symm same)] at back
    -- Both names with their dashes begin the topic of the other instance, so one begins the other.
    have first : pod.name ++ ['-'] <+: other.name ++ '-' :: (numeral other.ordinal.toNat ++ '-' :: more) :=
      List.IsPrefix.trans (by simp) begins
    have second : other.name ++ ['-'] <+: other.name ++ '-' :: (numeral other.ordinal.toNat ++ '-' :: more) := by
      simp
    rcases List.prefix_or_prefix_of_prefix first second with shorter | longer
    · exact apart shorter
    · exact back longer

theorem not_begins (pod : Pod) : ¬ pod.egress <+: pod.ingress ∧ ¬ pod.ingress <+: pod.egress := by
  rw [ingress_eq, egress_eq]
  simp only [List.prefix_append_right_inj, List.prefix_cons_inj]
  decide

theorem Unreserved.not_begins {pod : Pod} (unreserved : pod.Unreserved) {topic : Str} (own : pod.Topic topic) :
    ∀ internal ∈ ZmqStack.internalTopics, ¬ internal <+: topic := by
  intro internal member begins
  obtain ⟨rest, rfl⟩ := own.eq
  have undashed : ∀ internal ∈ ZmqStack.internalTopics, '-' ∉ internal := by decide
  rcases List.prefix_or_prefix_of_prefix begins (List.prefix_append pod.name _) with shorter | ⟨more, rfl⟩
  · exact unreserved internal member shorter
  · rw [List.prefix_append_right_inj] at begins
    cases more with
    | nil => exact unreserved _ member (by simp)
    | cons first more =>
        obtain ⟨rfl, -⟩ := List.cons_prefix_cons.mp begins
        exact undashed _ member (by simp)

theorem Unreserved.kind {pod : Pod} (unreserved : pod.Unreserved) {topic : Str} (own : pod.Topic topic) :
    Subscriber.kind topic = .application := by
  have foreign := unreserved.not_begins own
  have unlike (internal : Str) (member : internal ∈ ZmqStack.internalTopics) : topic ≠ internal := by
    rintro rfl
    exact foreign _ member List.prefix_rfl
  rw [Subscriber.kind, if_neg (unlike _ (by decide)), if_neg (unlike _ (by decide))]

end Pod

/-- Some instances of the TCP stack and of the converting stack behind some proxies, with the instances that
the messages of each are converted for. Every publisher is connected to one of the proxies. -/
structure Wiring (replicas pods : ℕ) where
  proxies : List Str
  distinct : proxies.Nodup
  pod : Fin pods → Pod
  apart : ∀ i j, i ≠ j → (pod i).Apart (pod j)
  unreserved : ∀ i, (pod i).Unreserved
  routes : Fin pods → List (Fin pods)
  endpoints : Fin replicas → { proxy // proxy ∈ proxies }
  uplinks : Fin pods → { proxy // proxy ∈ proxies }

variable {replicas pods : ℕ}

namespace Wiring

def targets (wiring : Wiring replicas pods) (source : Fin pods) : List Str :=
  (wiring.routes source).map fun target => (wiring.pod target).egress

def table (wiring : Wiring replicas pods) (sources : List (Fin pods)) : ConversionMap :=
  sources.foldl (fun map source => map.insert (wiring.pod source).ingress (wiring.targets source)) ∅

def conversions (wiring : Wiring replicas pods) : ConversionMap := wiring.table (List.finRange pods)

def deployment (wiring : Wiring replicas pods) : Deployment replicas pods where
  convStacks _ := .create (fun _ => true) wiring.proxies ((List.finRange pods).map fun i => (wiring.pod i).ingress)
    wiring.conversions
  endpoints replica := wiring.endpoints replica
  sockets i := Subscriber.setUp (fun _ => true) wiring.proxies (wiring.pod i).service.subTopics

/-- A client has sent data to an instance, or a copy of a message arrives. -/
inductive Act (replicas pods : ℕ) where
  | receives (source : Fin pods) (data : List Byte)
  | arrives (copy : Copy replicas pods)
  deriving DecidableEq

/-- What the server thread of an instance publishes is on its way to the proxy it is connected to. -/
def uploads (wiring : Wiring replicas pods) (source : Fin pods) (data : List Byte) : List (Copy replicas pods) :=
  (NetStack.onReceiveClientData (wiring.pod source).service.pubTopics data).map (.toProxy (wiring.uplinks source))

def step (wiring : Wiring replicas pods) :
    Step (Network replicas pods) (Act replicas pods) (Copy replicas pods)
  | network, .receives source data =>
      let sent := wiring.uploads source data
      some ({ network with inFlight := network.inFlight + sent }, sent)
  | network, .arrives copy => network.step copy

def initial (wiring : Wiring replicas pods) : Network replicas pods := ⟨wiring.deployment, 0⟩

/-- What an instance broadcasts to its clients when a message is delivered to it. -/
def broadcast (msgs : Message) : Option (List Byte) :=
  match (deliver .netStack .subscriber).eval msgs.frames with
  | some (some (.broadcasts payload)) => some (toBytes payload)
  | _ => none

def broadcasts (target : Fin pods) (acts : List (Act replicas pods)) : List (List Byte) :=
  acts.filterMap fun act => match act with
    | .arrives (.toSubscriber other msgs) => if other = target then broadcast msgs else none
    | _ => none

def received (source : Fin pods) (acts : List (Act replicas pods)) : List (List Byte) :=
  acts.filterMap fun act => match act with
    | .receives other data => if other = source then some data else none
    | _ => none

section Topics
variable (wiring : Wiring replicas pods) {i j : Fin pods}

theorem ingress_inj (same : (wiring.pod i).ingress = (wiring.pod j).ingress) : i = j := by
  by_contra different
  exact (wiring.apart i j different).not_begins (wiring.apart j i (Ne.symm different)) (.inl rfl) (.inl rfl)
    (same ▸ List.prefix_rfl)

theorem egress_begins_egress (begins : (wiring.pod i).egress <+: (wiring.pod j).egress) : i = j := by
  by_contra different
  exact (wiring.apart i j different).not_begins (wiring.apart j i (Ne.symm different)) (.inr rfl) (.inr rfl) begins

theorem egress_not_begins_ingress (i j : Fin pods) : ¬ (wiring.pod i).egress <+: (wiring.pod j).ingress := by
  by_cases same : i = j
  · rw [same]
    exact (wiring.pod j).not_begins.1
  · exact (wiring.apart i j same).not_begins (wiring.apart j i (Ne.symm same)) (.inr rfl) (.inl rfl)

theorem egress_injective : Function.Injective fun i => (wiring.pod i).egress :=
  fun i j (same : (wiring.pod i).egress = (wiring.pod j).egress) =>
    wiring.egress_begins_egress (same ▸ List.prefix_rfl)

theorem table_snoc (sources : List (Fin pods)) (source : Fin pods) : wiring.table (sources ++ [source]) =
    (wiring.table sources).insert (wiring.pod source).ingress (wiring.targets source) := by
  simp [table]

theorem lookup_table {sources : List (Fin pods)} {source : Fin pods} (member : source ∈ sources) :
    (wiring.table sources).lookup (wiring.pod source).ingress = some (wiring.targets source) := by
  induction sources using List.reverseRecOn with
  | nil => cases member
  | append_singleton sources last ih =>
      rw [table_snoc]
      by_cases same : source = last
      · rw [same, AList.lookup_insert]
      · rw [AList.lookup_insert_ne fun equal => same (wiring.ingress_inj equal)]
        exact ih (by simpa [same] using member)

theorem lookup_table_of_ne {sources : List (Fin pods)} {key : Str}
    (other : ∀ source, key ≠ (wiring.pod source).ingress) : (wiring.table sources).lookup key = none := by
  induction sources using List.reverseRecOn with
  | nil => rfl
  | append_singleton sources last ih => rw [table_snoc, AList.lookup_insert_ne (other last), ih]

theorem lookup_egress (target : Fin pods) : wiring.conversions.lookup (wiring.pod target).egress = none :=
  wiring.lookup_table_of_ne fun source same =>
    wiring.egress_not_begins_ingress target source (same ▸ List.prefix_rfl)

def filters : Filters :=
  (Subscriber.setUp (fun _ => true) wiring.proxies ((List.finRange pods).map fun i => (wiring.pod i).ingress)).filters

theorem connected (topics : List Str) :
    (Subscriber.setUp (fun _ => true) wiring.proxies topics).connected = wiring.proxies := by
  rw [Subscriber.setUp_connected]
  exact List.takeWhile_eq_self_iff.mpr fun _ _ => rfl

theorem replicated : Replicated wiring.deployment wiring.proxies wiring.conversions wiring.filters where
  conversionMap _ := rfl
  filters _ := rfl
  endpoints replica := (wiring.endpoints replica).2
  convStacks _ proxy member := by
    rw [deployment, ConvStack.create, ZmqStack.create, wiring.connected]
    exact List.count_eq_one_of_mem wiring.distinct member
  sockets _ proxy member := by
    rw [deployment, wiring.connected]
    exact List.count_eq_one_of_mem wiring.distinct member

theorem converts_once (source : Fin pods) :
    ConvertsOnce wiring.conversions wiring.filters (wiring.pod source).ingress (wiring.targets source) where
  listed := wiring.lookup_table (List.mem_finRange source)
  final topic member := by
    obtain ⟨target, -, rfl⟩ := List.mem_map.mp member
    exact wiring.lookup_egress target
  received := by
    refine ⟨(wiring.pod source).ingress, ?_, List.prefix_rfl⟩
    rw [filters, Subscriber.setUp_filters _ fun _ _ => rfl]
    simp
  application := (wiring.unreserved source).kind (.inl rfl)

end Topics

/-- A message comes of what a client of the instance has sent. -/
def Tells (wiring : Wiring replicas pods) (source : Fin pods) (data : List Byte) (msgs : Message) : Prop :=
  msgs = .publication (wiring.pod source).ingress (ofBytes data) ∨
    ∃ target ∈ wiring.routes source, msgs = .publication (wiring.pod target).egress (ofBytes data)

def Carries (wiring : Wiring replicas pods) (source : Fin pods) (data : List Byte) : Copy replicas pods → Prop
  | .toProxy _ msgs | .toReplica _ msgs => wiring.Tells source data msgs
  | .toSubscriber target msgs =>
      target ∈ wiring.routes source ∧ msgs = .publication (wiring.pod target).egress (ofBytes data)

theorem matches_of_forwarded {deployment : Deployment replicas pods} {proxy : Str} {msgs : Message}
    {target : Fin pods} (member : .toSubscriber target msgs ∈ deployment.forwarded proxy msgs) :
    Matches (deployment.sockets target).filters msgs.first := by
  rcases List.mem_append.mp member with early | late
  · obtain ⟨_, _, among⟩ := List.mem_flatMap.mp early
    cases (List.mem_replicate.mp among).2
  · obtain ⟨_, _, among⟩ := List.mem_flatMap.mp late
    obtain ⟨copied, same⟩ := List.mem_replicate.mp among
    cases same
    by_contra unmatched
    exact copied (if_neg unmatched)

section Copies
variable (wiring : Wiring replicas pods)

/-- Of the filters of an instance, only that of its own topic lets topics of instances in. -/
theorem matches_topic_iff (target : Fin pods) {other : Fin pods} {topic : Str}
    (own : (wiring.pod other).Topic topic) :
    Matches (wiring.deployment.sockets target).filters topic ↔ (wiring.pod target).egress <+: topic := by
  have installed : (wiring.deployment.sockets target).filters =
      ([(wiring.pod target).egress] : Multiset Str) + {ctrlTopic, welcomeTopic} :=
    Subscriber.setUp_filters _ fun _ _ => rfl
  have foreign := (wiring.unreserved other).not_begins own
  rw [Matches, installed]
  simp [foreign ctrlTopic (by decide), foreign welcomeTopic (by decide)]

theorem not_matches_ingress (target source : Fin pods) :
    ¬ Matches (wiring.deployment.sockets target).filters (wiring.pod source).ingress := by
  rw [matches_topic_iff wiring target (.inl rfl)]
  exact wiring.egress_not_begins_ingress target source

theorem matches_egress_iff (target other : Fin pods) :
    Matches (wiring.deployment.sockets target).filters (wiring.pod other).egress ↔ target = other := by
  rw [matches_topic_iff wiring target (.inr rfl)]
  constructor
  · exact wiring.egress_begins_egress
  · rintro rfl
    exact List.prefix_rfl

variable {wiring} {source : Fin pods} {data : List Byte}

theorem Tells.forwarded {msgs : Message} (tells : wiring.Tells source data msgs) {target : Fin pods}
    (matched : Matches (wiring.deployment.sockets target).filters msgs.first) :
    wiring.Carries source data (.toSubscriber target msgs) := by
  rcases tells with rfl | ⟨other, routed, rfl⟩
  · exact absurd matched (wiring.not_matches_ingress target source)
  · obtain rfl := (wiring.matches_egress_iff target other).mp matched
    exact ⟨routed, rfl⟩

theorem Tells.converted {msgs : Message} (tells : wiring.Tells source data msgs) {replica : Fin replicas}
    {copy : Copy replicas pods} (member : copy ∈ wiring.deployment.sends (.toReplica replica msgs)) :
    wiring.Carries source data copy := by
  have outputs := wiring.replicated.outputs (wiring.converts_once source) replica
  rcases tells with rfl | ⟨target, routed, rfl⟩
  · rw [sends_replica, outputs.1, if_pos ((wiring.unreserved source).kind (.inl rfl))] at member
    obtain ⟨topic, listed, rfl⟩ := List.mem_map.mp member
    obtain ⟨target, routed, rfl⟩ := List.mem_map.mp listed
    exact .inr ⟨target, routed, rfl⟩
  · rw [sends_replica, outputs.2 _ (List.mem_map_of_mem routed), ite_self] at member
    cases member

theorem Carries.sends {copy added : Copy replicas pods} (carries : wiring.Carries source data copy)
    (member : added ∈ wiring.deployment.sends copy) : wiring.Carries source data added := by
  cases copy with
  | toProxy proxy msgs =>
      rcases mem_forwarded member with ⟨replica, rfl⟩ | ⟨target, rfl⟩
      · exact carries
      · exact Tells.forwarded carries (matches_of_forwarded member)
  | toReplica replica msgs => exact Tells.converted carries member
  | toSubscriber => cases member

theorem Carries.family {n : ℕ} {copy other : Copy replicas pods} (carries : wiring.Carries source data copy)
    (member : other ∈ family wiring.deployment.sends n copy) : wiring.Carries source data other := by
  rcases Multiset.mem_cons.mp member with rfl | below
  · exact carries
  · exact Worklist.offspring_induction (wiring.Carries source data) (fun _ carries _ => carries.sends) carries
      other below

end Copies

theorem ofBytes_injective : Function.Injective ofBytes :=
  Function.LeftInverse.injective toBytes_ofBytes

theorem broadcast_publication {topic : Str} (application : Subscriber.kind topic = .application) (data : List Byte) :
    broadcast (.publication topic (ofBytes data)) = some data := by
  rw [broadcast, deliver, Subscriber.eval_dispatch, Message.first_publication, application]
  simp [StackClass.target, NetStack.eval_onReceivedMessage, Message.publication, toBytes_ofBytes]

section Counting
variable (wiring : Wiring replicas pods)

/-- The broadcast of data by an instance, as the copy that causes it. -/
def cause (target : Fin pods) (data : List Byte) : Copy replicas pods :=
  .toSubscriber target (.publication (wiring.pod target).egress (ofBytes data))

theorem cause_injective (target : Fin pods) : Function.Injective (wiring.cause target) := by
  intro data other same
  simp only [cause, Copy.toSubscriber.injEq, true_and] at same
  exact ofBytes_injective (Message.publication_inj.mp same).2

theorem uploads_eq (source : Fin pods) (data : List Byte) : wiring.uploads source data =
    [.toProxy (wiring.uplinks source) (.publication (wiring.pod source).ingress (ofBytes data))] := rfl

theorem carries_uploads (source : Fin pods) (data : List Byte) {copy : Copy replicas pods}
    (member : copy ∈ wiring.uploads source data) : wiring.Carries source data copy := by
  obtain rfl := List.mem_singleton.mp (wiring.uploads_eq source data ▸ member)
  exact .inl rfl

theorem within_uploads (source : Fin pods) (data : List Byte) {copy : Copy replicas pods}
    (member : copy ∈ wiring.uploads source data) : Within wiring.deployment.sends 3 copy := by
  obtain rfl := List.mem_singleton.mp (wiring.uploads_eq source data ▸ member)
  exact (wiring.replicated.within (wiring.converts_once source) _).2.2 _

theorem count_family (source target : Fin pods) (data other : List Byte) :
    (((wiring.uploads source data).map (family wiring.deployment.sends 3)).sum).count (wiring.cause target other) =
      replicas * if data = other then (wiring.routes source).count target else 0 := by
  rw [uploads_eq, List.map_singleton, List.sum_singleton]
  -- What is not routed to the target, or is other data, never arrives there.
  by_cases carried : target ∈ wiring.routes source ∧ data = other
  · obtain ⟨routed, rfl⟩ := carried
    have listed : (wiring.pod target).egress ∈ wiring.targets source := List.mem_map_of_mem routed
    have copies : (wiring.targets source).count (wiring.pod target).egress = (wiring.routes source).count target :=
      List.count_map_of_injective _ _ wiring.egress_injective target
    have arrivals := wiring.replicated.arrivals (wiring.converts_once source) listed
      ((wiring.matches_egress_iff target target).mpr rfl) (wiring.uplinks source).2 (ofBytes data)
    rw [if_pos rfl, ← copies, ← arrivals]
    exact Multiset.count_cons_of_ne (by simp [cause]) _
  · have absent : wiring.cause target other ∉ family wiring.deployment.sends 3
        (.toProxy (wiring.uplinks source) (.publication (wiring.pod source).ingress (ofBytes data))) := by
      intro member
      have carries := wiring.carries_uploads source data (List.mem_singleton_self _)
      obtain ⟨routed, same⟩ := carries.family member
      exact carried ⟨routed, (ofBytes_injective (Message.publication_inj.mp same).2).symm⟩
    rw [Multiset.count_eq_zero_of_notMem absent]
    split
    · rename_i same
      rw [List.count_eq_zero_of_not_mem fun routed => carried ⟨routed, same⟩, Nat.mul_zero]
    · rw [Nat.mul_zero]

end Counting

def Act.turn (wiring : Wiring replicas pods) : Act replicas pods → Turn (Copy replicas pods)
  | .receives source data => .adds (wiring.uploads source data)
  | .arrives copy => .takes copy

/-- The copies in flight of a deployment that stays as it is. -/
def fed (wiring : Wiring replicas pods) :
    Step (Multiset (Copy replicas pods)) (Act replicas pods) (Copy replicas pods) :=
  fun inFlight act => Worklist.feed wiring.deployment.sends inFlight (act.turn wiring)

section Runs
variable (wiring : Wiring replicas pods)

theorem step_eq_fed (inFlight : Multiset (Copy replicas pods)) (act : Act replicas pods) :
    wiring.step ⟨wiring.deployment, inFlight⟩ act =
      (wiring.fed inFlight act).map (Prod.map (Network.mk wiring.deployment) id) := by
  cases act with
  | receives source data => rfl
  | arrives copy => exact Network.step_eq_worklist wiring.deployment inFlight copy

theorem added_uploads {acts : List (Act replicas pods)} {copy : Copy replicas pods}
    (member : copy ∈ acts.flatMap fun act => (act.turn wiring).added) :
    ∃ source data, copy ∈ wiring.uploads source data := by
  obtain ⟨act, -, member⟩ := List.mem_flatMap.mp member
  cases act with
  | receives source data => exact ⟨source, data, member⟩
  | arrives copy => cases member

theorem count_received (source : Fin pods) (data : List Byte) (act : Act replicas pods)
    (acts : List (Act replicas pods)) :
    (received source (act :: acts)).count data =
      (if act = .receives source data then 1 else 0) + (received source acts).count data := by
  cases act with
  | receives other data' =>
      by_cases same : other = source <;> simp [received, same, List.count_cons, add_comm]
  | arrives copy => simp [received]

theorem sum_families (target : Fin pods) (data : List Byte) (acts : List (Act replicas pods)) :
    (((acts.flatMap fun act => (act.turn wiring).added).map (family wiring.deployment.sends 3)).sum).count
        (wiring.cause target data) =
      replicas * ∑ source, (wiring.routes source).count target * (received source acts).count data := by
  induction acts with
  | nil => simp [received]
  | cons act acts ih =>
      rw [List.flatMap_cons, List.map_append, List.sum_append, Multiset.count_add, ih]
      simp only [count_received, Nat.mul_add, Finset.sum_add_distrib]
      congr 1
      cases act with
      | receives source data' =>
          rw [Act.turn, Turn.added, count_family]
          by_cases same : data' = data <;> simp [same]
      | arrives copy => simp [Act.turn, Turn.added]

theorem count_broadcasts (target : Fin pods) (data : List Byte) {acts : List (Act replicas pods)}
    (own : ∀ copy ∈ acts.flatMap fun act => (act.turn wiring).taken,
      ∃ source data, wiring.Carries source data copy) :
    (broadcasts target acts).count data =
      (acts.flatMap fun act => (act.turn wiring).taken).count (wiring.cause target data) := by
  induction acts with
  | nil => rfl
  | cons act acts ih =>
      rw [List.flatMap_cons, List.forall_mem_append] at own
      rw [List.flatMap_cons, List.count_append, ← ih own.2]
      cases act with
      | receives source data => simp [broadcasts, Act.turn, Turn.taken]
      | arrives copy =>
          cases copy with
          | toProxy | toReplica => simp [broadcasts, Act.turn, Turn.taken, cause]
          | toSubscriber other msgs =>
              obtain ⟨source, data', -, rfl⟩ := own.1 _ (List.mem_singleton_self _)
              have told := broadcast_publication ((wiring.unreserved other).kind (.inr rfl)) data'
              by_cases same : other = target
              · subst same
                have first : broadcasts other (.arrives (wiring.cause other data') :: acts) =
                    data' :: broadcasts other acts := by
                  simp [broadcasts, cause, told]
                have caused : wiring.cause other data' = wiring.cause other data ↔ data' = data :=
                  (wiring.cause_injective other).eq_iff
                rw [← cause, first, Act.turn, Turn.taken, List.count_cons, List.count_singleton, add_comm]
                simp [caused]
              · simp [broadcasts, Act.turn, Turn.taken, cause, same]

/-- The copies that have arrived, with what those in flight still lead to, are what all that has been received
leads to. -/
theorem run_balance {steps : List (Taken (Multiset (Copy replicas pods)) (Act replicas pods) (Copy replicas pods))}
    {inFlight : Multiset (Copy replicas pods)} (run : Run wiring.fed 0 steps inFlight) :
    (∀ copy ∈ inFlight, Within wiring.deployment.sends 3 copy) ∧
      (((steps.map (·.label)).flatMap fun act => (act.turn wiring).taken : List (Copy replicas pods)) :
          Multiset (Copy replicas pods)) + (inFlight.map (family wiring.deployment.sends 3)).sum =
        (((steps.map (·.label)).flatMap fun act => (act.turn wiring).added).map
          (family wiring.deployment.sends 3)).sum := by
  have feeds : Run (Worklist.feed wiring.deployment.sends) 0 _ inFlight := Run.relabel (fun _ _ => rfl) run
  have fresh : ∀ turn ∈ steps.map (Taken.relabel (Act.turn wiring)), ∀ copy ∈ turn.label.added,
      Within wiring.deployment.sends 3 copy := by
    intro turn member copy added
    obtain ⟨taken, -, rfl⟩ := List.mem_map.mp member
    have among : copy ∈ [taken.label].flatMap fun act => (act.turn wiring).added := by
      rw [List.flatMap_singleton]
      exact added
    obtain ⟨source, data, uploaded⟩ := wiring.added_uploads among
    exact wiring.within_uploads source data uploaded
  obtain ⟨within, balance⟩ := Worklist.run_families feeds (by simp) fresh
  refine ⟨within, ?_⟩
  rw [Multiset.map_zero, Multiset.sum_zero, zero_add, List.flatMap_map, List.flatMap_map] at balance
  rw [List.flatMap_map, List.flatMap_map]
  exact balance

theorem exists_arrived {inFlight : Multiset (Copy replicas pods)}
    (within : ∀ copy ∈ inFlight, Within wiring.deployment.sends 3 copy) :
    ∃ rest last, Run wiring.step ⟨wiring.deployment, inFlight⟩ rest last ∧
      (∀ taken ∈ rest, ∃ copy, taken.label = .arrives copy) ∧ last.inFlight = 0 := by
  obtain ⟨worked, works⟩ := Worklist.exists_emptied within
  have arrives : Run wiring.fed inFlight (worked.map (Taken.relabel Act.arrives)) 0 :=
    Run.relabel (fun _ _ => rfl) works
  refine ⟨_, _, Run.map wiring.step_eq_fed arrives, fun taken member => ?_, rfl⟩
  rw [List.map_map] at member
  obtain ⟨step, -, rfl⟩ := List.mem_map.mp member
  exact ⟨step.label, rfl⟩

end Runs

def pairWiring : Wiring 1 2 where
  proxies := ["tcp://zmq-xpub-proxy-0:8200".toList, "tcp://zmq-xpub-proxy-1:8200".toList]
  distinct := by decide
  pod i := ⟨"net-stack".toList, "net-stack".toList, i.val.toUInt32⟩
  apart := by decide
  unreserved := by decide
  routes i := [1 - i]
  endpoints _ := ⟨"tcp://zmq-xpub-proxy-1:8200".toList, by decide⟩
  uplinks _ := ⟨"tcp://zmq-xpub-proxy-0:8200".toList, by decide⟩

end Wiring

end ZmqPlayground
