import ZmqPlayground.Delivery

/-! Which of the messages that pass the filters reach the application.

The socket matches its filters as prefixes, and the loop tells internal messages by
equality. What lies between is a topic that only begins like an internal one.
-/

set_option autoImplicit false

namespace ZmqPlayground

open Library

namespace Subscriber

inductive Callback where
  | onReceivedMessage
  | onCtrlMessage
  deriving DecidableEq

def callback (msgs : Message) : Option Callback :=
  ((dispatch ⟨return .onReceivedMessage, return .onCtrlMessage⟩).eval msgs.frames).join

theorem callback_eq (msgs : Message) : callback msgs = match kind msgs.first with
    | .welcome => none
    | .ctrl => some .onCtrlMessage
    | .application => some .onReceivedMessage := by
  rw [callback, eval_dispatch]
  cases kind msgs.first <;> rfl

theorem kind_application_iff (topic : Str) : kind topic = .application ↔ topic ∉ ZmqStack.internalTopics := by
  have different : ctrlTopic ≠ welcomeTopic := by decide
  rw [kind, ZmqStack.internalTopics, Finset.mem_insert, Finset.mem_singleton]
  split_ifs with welcome ctrl
  · simp [welcome]
  · simp [ctrl]
  · simp [welcome, ctrl]

theorem received_iff (msgs : Message) :
    callback msgs = some .onReceivedMessage ↔ msgs.first ∉ ZmqStack.internalTopics := by
  rw [← kind_application_iff, callback_eq]
  cases kind msgs.first <;> simp

/-- Whatever becomes of the connections, no other filter is installed than those of the application
and the internal ones. -/
theorem mem_setUp_filters {connects : Str → Bool} {endpoints topics : List Str} {filter : Str}
    (installed : filter ∈ (setUp connects endpoints topics).filters) :
    filter ∈ topics ∨ filter ∈ ZmqStack.internalTopics := by
  have connected : (connectAll connects unconnected endpoints).1.filters = {ctrlTopic, welcomeTopic} :=
    connectAll_filters connects unconnected endpoints
  rw [setUp_eq] at installed
  split at installed
  · rw [foldl_subscribe_filters, connected, Multiset.mem_add] at installed
    exact installed.imp Multiset.mem_coe.mp (by simp [ZmqStack.internalTopics])
  · rw [connected] at installed
    exact .inr (by simpa [ZmqStack.internalTopics] using installed)

theorem internal_eq_of_begins {internal other : Str} (member : internal ∈ ZmqStack.internalTopics)
    (isInternal : other ∈ ZmqStack.internalTopics) (begins : internal <+: other) : internal = other := by
  have apart : ∀ internal ∈ ZmqStack.internalTopics, ∀ other ∈ ZmqStack.internalTopics,
      internal <+: other → internal = other := by decide
  exact apart internal member other isInternal begins

/-- An internal topic that begins the first frame is the first frame, or a topic of the application
begins it too. -/
def Separated (topics : List Str) (msgs : Message) : Prop :=
  ∀ internal ∈ ZmqStack.internalTopics, internal <+: msgs.first →
    internal = msgs.first ∨ Matches topics msgs.first

instance (topics : List Str) (msgs : Message) : Decidable (Separated topics msgs) :=
  inferInstanceAs (Decidable (∀ internal ∈ ZmqStack.internalTopics, internal <+: msgs.first → _))

theorem received_subscribed_iff {connects : Str → Bool} {endpoints topics : List Str} {msgs : Message}
    (delivered : Matches (setUp connects endpoints topics).filters msgs.first) :
    (callback msgs = some .onReceivedMessage → Matches topics msgs.first) ↔ Separated topics msgs := by
  rw [received_iff]
  constructor
  · intro subscribed internal member begins
    by_cases own : msgs.first ∈ ZmqStack.internalTopics
    · exact .inl (internal_eq_of_begins member own begins)
    · exact .inr (subscribed own)
  · intro separated external
    obtain ⟨filter, installed, begins⟩ := delivered
    rcases mem_setUp_filters installed with topic | internal
    · exact ⟨filter, Multiset.mem_coe.mpr topic, begins⟩
    · rcases separated filter internal begins with rfl | subscribed
      · exact absurd internal external
      · exact subscribed

end Subscriber

namespace NetStack

def Broadcasts (msgs : Message) : Prop :=
  ∃ data, (deliver .netStack .subscriber).eval msgs.frames = some (some (.broadcasts data))

theorem broadcasts_iff (msgs : Message) :
    Broadcasts msgs ↔ 2 ≤ msgs.frames.length ∧ Subscriber.callback msgs = some .onReceivedMessage := by
  rw [Broadcasts, deliver, Subscriber.eval_dispatch, Subscriber.callback_eq]
  cases Subscriber.kind msgs.first with
  | welcome => simp
  | ctrl =>
      simp only [StackClass.target, onCtrlMessage, eval_logFrames]
      cases msgs.frames[1]? <;> simp
  | application =>
      have second : msgs.frames[1]?.isSome ↔ 2 ≤ msgs.frames.length := by
        rw [isSome_getElem?]
        rfl
      simp only [StackClass.target, eval_onReceivedMessage, and_true, Option.map_map, ← second]
      cases msgs.frames[1]? <;> simp

/-- Of the messages that pass the filters, only those that are subscribed reach the application, and only
those are broadcast, exactly if no internal topic begins a message that is not subscribed. -/
theorem subscribed_iff {connects : Str → Bool} {endpoints topics : List Str} {msgs : Message}
    (delivered : Matches (Subscriber.setUp connects endpoints topics).filters msgs.first) :
    ((Subscriber.callback msgs = some .onReceivedMessage → Matches topics msgs.first) ↔
        Subscriber.Separated topics msgs) ∧
      (2 ≤ msgs.frames.length →
        ((Broadcasts msgs → Matches topics msgs.first) ↔ Subscriber.Separated topics msgs)) := by
  have received := Subscriber.received_subscribed_iff delivered
  refine ⟨received, fun several => ?_⟩
  rw [broadcasts_iff, and_iff_right several]
  exact received

/-- The TCP stack of the first container broadcasts a message on its own topic. -/
theorem subscribed_iff_own :
    let msgs := Message.publication "net-stack-0-egress".toList "hello".toList
    Subscriber.callback msgs = some .onReceivedMessage ∧ Matches ["net-stack-0-egress".toList] msgs.first := by
  have both := @subscribed_iff (fun _ => true) [] ["net-stack-0-egress".toList]
    (.publication "net-stack-0-egress".toList "hello".toList) (by decide)
  exact ⟨by decide, both.1.mpr (by decide) (by decide)⟩

/-- A topic that begins like the control topic passes its filter, and its payload is broadcast. -/
theorem ctrl_extended :
    let msgs := Message.publication "ctrl-room".toList "hello".toList
    Matches (Subscriber.setUp (fun _ => true) [] ["net-stack-0-egress".toList]).filters msgs.first ∧
      (deliver .netStack .subscriber).eval msgs.frames = some (some (.broadcasts "hello".toList)) ∧
      ¬ (Subscriber.callback msgs = some .onReceivedMessage →
        Matches ["net-stack-0-egress".toList] msgs.first) := by
  decide

end NetStack

end ZmqPlayground
