import Mathlib.Data.Finset.Basic
import Mathlib.Data.Finset.Lattice.Lemmas
import Mathlib.Data.List.TakeWhile
import ZmqPlayground.Common.Subscriber
import ZmqPlayground.Library.Runs

/-! The base stack: what it does with frames, and the subscriptions it keeps.

`m_subscriptions` is a set and the filters of the socket are counted, so the two
stay together only under a condition on the calls to `Unsubscribe`.
-/

set_option autoImplicit false

namespace ZmqPlayground

open Library

inductive Reaction where
  | logs (msg : Str) (topic : Option Str)
  | converts (topic msg : Str)
  | broadcasts (msg : Str)
  deriving DecidableEq

/-- The outcome of a socket option call: done, or a `zmq::error_t` thrown. -/
inductive SocketCall where
  | done
  | throws
  deriving DecidableEq

structure ZmqStack where
  subscriptions : Finset Str
  socket : SubSocket
  deriving DecidableEq

/-- The log line of a payload and its topic: the second frame is read, then the first. -/
def logFrames : Reads Str Reaction := do
  let msg ← Reads.get 1
  let topic ← Reads.get 0
  return .logs msg (some topic)

theorem eval_logFrames (msgs : Message) :
    logFrames.eval msgs.frames = msgs.frames[1]?.map fun msg => .logs msg (some msgs.first) := by
  simp only [logFrames, Reads.eval_bind, Reads.eval_get, msgs.frames_zero, Option.bind_some]
  cases msgs.frames[1]? <;> rfl

namespace ZmqStack

def onReceivedMessage : Reads Str Reaction := do
  if (← Reads.length) = 1 then
    return .logs (← Reads.get 0) none
  else
    logFrames

def onCtrlMessage : Reads Str Reaction := logFrames

/-- `Publisher::publishMsg`: one message of two frames for each topic, in order. -/
def publish (topics : List Str) (msg : Str) : List Message :=
  topics.map fun topic => .publication topic msg

/-- The stack once its constructor has run and its subscriber thread has set up the socket. -/
def create (connects : Str → Bool) (pubEndpoints topics : List Str) : ZmqStack :=
  ⟨topics.toFinset, Subscriber.setUp connects pubEndpoints topics⟩

/-- `m_subscriptions` changes before the socket option is set, also when that throws. -/
def subscribe (option : SocketCall) (topic : Str) (stack : ZmqStack) : ZmqStack × SocketCall :=
  let stack := { stack with subscriptions := insert topic stack.subscriptions }
  match option with
  | .done => ({ stack with socket := stack.socket.subscribe topic }, .done)
  | .throws => (stack, .throws)

def unsubscribe (option : SocketCall) (topic : Str) (stack : ZmqStack) : ZmqStack × SocketCall :=
  let stack := { stack with subscriptions := stack.subscriptions.erase topic }
  match option with
  | .done => ({ stack with socket := stack.socket.unsubscribe topic }, .done)
  | .throws => (stack, .throws)

inductive Op where
  | subscribe (topic : Str)
  | unsubscribe (topic : Str)
  deriving DecidableEq

def apply (stack : ZmqStack) : Op → ZmqStack
  | .subscribe topic => (stack.subscribe .done topic).1
  | .unsubscribe topic => (stack.unsubscribe .done topic).1

def internalTopics : Finset Str := {ctrlTopic, welcomeTopic}

/-- The topics whose filter is in force are the listed ones and the internal ones. -/
def InStep (stack : ZmqStack) : Prop :=
  stack.socket.filters.toFinset = stack.subscriptions ∪ internalTopics

instance (stack : ZmqStack) : Decidable stack.InStep :=
  inferInstanceAs (Decidable (_ = _))

theorem inStep_iff (stack : ZmqStack) :
    stack.InStep ↔
      ∀ topic, 0 < stack.socket.filters.count topic ↔
        topic ∈ stack.subscriptions ∨ topic ∈ internalTopics := by
  simp only [InStep, Finset.ext_iff, Multiset.mem_toFinset, Finset.mem_union, Multiset.count_pos]

/-- What a call needs of the filters it finds: an unlisted topic must lose its last filter, an
internal one must keep one. -/
def Counted (stack : ZmqStack) : Op → Prop
  | .subscribe _ => True
  | .unsubscribe topic =>
      if topic ∈ internalTopics then 2 ≤ stack.socket.filters.count topic
      else stack.socket.filters.count topic ≤ 1

theorem create_inStep {connects : Str → Bool} {pubEndpoints : List Str} (topics : List Str)
    (all : ∀ endpoint ∈ pubEndpoints, connects endpoint = true) :
    (create connects pubEndpoints topics).InStep := by
  rw [InStep, create, Subscriber.setUp_filters topics all]
  ext topic
  simp only [internalTopics, Multiset.mem_toFinset, Multiset.mem_add, Multiset.mem_coe,
    Multiset.insert_eq_cons, Multiset.mem_cons, Multiset.mem_singleton, Finset.mem_union,
    List.mem_toFinset, Finset.mem_insert, Finset.mem_singleton]

section Connecting
variable (connects : Str → Bool) (pubEndpoints topics : List Str)

/-- The socket is connected to every endpoint it can be connected to, and every topic has a filter. -/
def SetUp : Prop :=
  (∀ endpoint ∈ pubEndpoints, connects endpoint = true →
      endpoint ∈ (create connects pubEndpoints topics).socket.connected) ∧
    ∀ topic ∈ topics, topic ∈ (create connects pubEndpoints topics).socket.filters

instance : Decidable (SetUp connects pubEndpoints topics) :=
  inferInstanceAs (Decidable ((∀ _ ∈ _, _ → _ ∈ _) ∧ ∀ _ ∈ _, _ ∈ _))

/-- A stack whose topics are all listed has been set up exactly if no endpoint throws, or if all that do
not throw are listed before the first that does and no topic but the internal ones is configured. -/
theorem setUp_iff :
    (∀ topic ∈ topics, topic ∈ (create connects pubEndpoints topics).subscriptions) ∧
      (SetUp connects pubEndpoints topics ↔
        (∀ endpoint ∈ pubEndpoints, connects endpoint = true) ∨
          (∀ endpoint ∈ pubEndpoints, connects endpoint = true → endpoint ∈ pubEndpoints.takeWhile connects) ∧
            ∀ topic ∈ topics, topic ∈ internalTopics) := by
  constructor
  · exact fun topic member => List.mem_toFinset.mpr member
  · have connected : (create connects pubEndpoints topics).socket.connected =
        pubEndpoints.takeWhile connects :=
      Subscriber.setUp_connected connects pubEndpoints topics
    rw [SetUp, connected]
    -- The loops are left together: either no endpoint throws, or no topic gets its filter.
    by_cases all : ∀ endpoint ∈ pubEndpoints, connects endpoint = true
    · apply iff_of_true _ (.inl all)
      constructor
      · intro endpoint member _
        rwa [List.takeWhile_eq_self_iff.mpr all]
      · intro topic member
        rw [create, Subscriber.setUp_filters topics all]
        exact Multiset.mem_add.mpr (.inl (Multiset.mem_coe.mpr member))
    · rw [or_iff_right all]
      simp only [not_forall, Bool.not_eq_true] at all
      obtain ⟨bad, member, throws⟩ := all
      have filters : ∀ topic, topic ∈ (create connects pubEndpoints topics).socket.filters ↔
          topic ∈ internalTopics := by
        intro topic
        rw [create, Subscriber.setUp_filters_of_throws topics member throws]
        simp [internalTopics]
      simp only [filters]

end Connecting

/-- The second of three proxies is not there: the third is never tried and nothing is received, but the
topic stays listed. -/
theorem not_setUp :
    let connects := fun endpoint => decide (endpoint ≠ "tcp://proxy-1:9200".toList)
    let endpoints := ["tcp://proxy-0:9200".toList, "tcp://proxy-1:9200".toList, "tcp://proxy-2:9200".toList]
    let stack := create connects endpoints ["topic1".toList]
    ¬ SetUp connects endpoints ["topic1".toList] ∧ "topic1".toList ∈ stack.subscriptions ∧
      stack.socket.connected = ["tcp://proxy-0:9200".toList] ∧ ¬ Matches stack.socket.filters "topic1".toList := by
  decide

theorem subscribe_inStep {stack : ZmqStack} (topic : Str) (before : stack.InStep) :
    (stack.apply (.subscribe topic)).InStep := by
  rw [InStep] at before ⊢
  simp only [apply, subscribe, SubSocket.filters_subscribe, Multiset.toFinset_cons, before,
    Finset.insert_union]

theorem unsubscribe_inStep_iff {stack : ZmqStack} (topic : Str) (before : stack.InStep) :
    (stack.apply (.unsubscribe topic)).InStep ↔ stack.Counted (.unsubscribe topic) := by
  rw [inStep_iff] at before ⊢
  -- Only the filters of the topic itself change, one of which goes.
  have others : ∀ other, other ≠ topic →
      ((0 < (stack.socket.filters.erase topic).count other) ↔
        other ∈ stack.subscriptions.erase topic ∨ other ∈ internalTopics) := by
    intro other different
    rw [Multiset.count_erase_of_ne different, Finset.mem_erase, before other]
    simp [different]
  have own : (0 < (stack.socket.filters.erase topic).count topic ↔
      topic ∈ stack.subscriptions.erase topic ∨ topic ∈ internalTopics) ↔
        stack.Counted (.unsubscribe topic) := by
    have present := before topic
    rw [Multiset.count_erase_self, Counted]
    -- An internal topic stays in force by design, any other is to be gone with its last filter.
    by_cases internal : topic ∈ internalTopics
    · simp only [Finset.mem_erase, internal, or_true, iff_true, if_true]
      omega
    · simp only [Finset.mem_erase, ne_eq, not_true_eq_false, false_and, internal, or_self,
        iff_false, if_false]
      omega
  constructor
  · exact fun all => own.mp (all topic)
  · intro counted other
    by_cases same : other = topic
    · exact same ▸ own.mpr counted
    · exact others other same

theorem apply_inStep_iff (stack : ZmqStack) (op : Op) (before : stack.InStep) :
    (stack.apply op).InStep ↔ stack.Counted op := by
  cases op with
  | subscribe topic => exact iff_of_true (subscribe_inStep topic before) trivial
  | unsubscribe topic => exact unsubscribe_inStep_iff topic before

/-- The filters in force are the listed and the internal topics after every call, exactly if
every `Unsubscribe` finds at most one filter of its topic, or two of an internal one. -/
theorem subscriptions_inStep_iff (pubEndpoints topics : List Str) (ops : List Op) :
    (∀ past, past <+: ops → (past.foldl apply (create (fun _ => true) pubEndpoints topics)).InStep) ↔
      ∀ past op rest, ops = past ++ op :: rest →
        (past.foldl apply (create (fun _ => true) pubEndpoints topics)).Counted op :=
  Runs.forall_prefix_iff apply apply_inStep_iff (create_inStep topics fun _ _ => rfl) ops

/-- A topic subscribed twice is still received after it is no longer listed. -/
theorem subscribed_twice_stays :
    let stack := [Op.subscribe "topic1".toList, .subscribe "topic1".toList,
      .unsubscribe "topic1".toList].foldl apply (create (fun _ => true) [] [])
    "topic1".toList ∉ stack.subscriptions ∧ Matches stack.socket.filters "topic1".toList ∧
      ¬ stack.InStep := by
  decide

end ZmqStack

end ZmqPlayground
