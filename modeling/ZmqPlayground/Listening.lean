import ZmqPlayground.Filtering
import ZmqPlayground.Library.Tally

/-! What a stack lists and what it hears, from the history of its calls.

The set forgets how often a topic has been subscribed and the socket does not. A call that
throws, as all do once the subscriber has been stopped, still changes the set.
-/

set_option autoImplicit false

namespace ZmqPlayground

open Library
open Subscriber (Callback callback received_iff)

namespace ZmqStack

def Op.change : Op → Change Str
  | .subscribe topic => .add topic
  | .unsubscribe topic => .take topic

/-- A call, and what becomes of its socket option. -/
structure Call where
  op : Op
  option : SocketCall
  deriving DecidableEq

def perform (stack : ZmqStack) (call : Call) : ZmqStack :=
  match call.op with
  | .subscribe topic => (stack.subscribe call.option topic).1
  | .unsubscribe topic => (stack.unsubscribe call.option topic).1

/-- The topics of the constructor come first. -/
def listed (topics : List Str) (calls : List Call) : List (Change Str) :=
  topics.map .add ++ calls.map fun call => call.op.change

/-- The internal topics come first, then those of the constructor unless an endpoint has thrown. -/
def filtered (connects : Str → Bool) (endpoints topics : List Str) (calls : List Call) : List (Change Str) :=
  .add welcomeTopic :: .add ctrlTopic :: (if endpoints.all connects then topics.map .add else []) ++
    (calls.filter fun call => call.option = .done).map fun call => call.op.change

def Hears (stack : ZmqStack) (msgs : Message) : Prop :=
  Matches stack.socket.filters msgs.first ∧ callback msgs = some .onReceivedMessage

instance (stack : ZmqStack) (msgs : Message) : Decidable (stack.Hears msgs) := inferInstanceAs (Decidable (_ ∧ _))

theorem perform_subscriptions (stack : ZmqStack) (call : Call) :
    (stack.perform call).subscriptions = Change.listed stack.subscriptions call.op.change := by
  obtain ⟨op, option⟩ := call
  cases op <;> cases option <;> rfl

theorem perform_filters (stack : ZmqStack) (call : Call) : (stack.perform call).socket.filters =
    if call.option = .done then Change.tallied stack.socket.filters call.op.change else stack.socket.filters := by
  obtain ⟨op, option⟩ := call
  cases op <;> cases option <;> rfl

variable (connects : Str → Bool) (endpoints topics : List Str) (calls : List Call)

theorem create_subscriptions : (create connects endpoints topics).subscriptions =
    Change.listing (listed topics []) := by
  simp [create, Change.listing, listed, Change.foldl_listed_add]

theorem create_filters : (create connects endpoints topics).socket.filters =
    Change.tally (filtered connects endpoints topics []) := by
  have internal : Change.tallied (Change.tallied 0 (.add welcomeTopic)) (.add ctrlTopic) =
      ({ctrlTopic, welcomeTopic} : Multiset Str) := rfl
  simp only [filtered, Change.tally, List.filter_nil, List.map_nil, List.append_nil, List.foldl_cons, internal]
  split
  · rename_i all
    rw [Change.foldl_tallied_add]
    exact Subscriber.setUp_filters topics (List.all_eq_true.mp all)
  · rename_i some_throws
    obtain ⟨bad, member, throws⟩ := List.all_eq_false.mp (Bool.eq_false_of_not_eq_true some_throws)
    exact Subscriber.setUp_filters_of_throws topics member (Bool.eq_false_of_not_eq_true throws)

theorem subscriptions_eq : (calls.foldl perform (create connects endpoints topics)).subscriptions =
    Change.listing (listed topics calls) := by
  induction calls using List.reverseRecOn with
  | nil => exact create_subscriptions connects endpoints topics
  | append_singleton calls call ih =>
      rw [List.foldl_append, List.foldl_cons, List.foldl_nil, perform_subscriptions, ih, ← Change.listing_snoc]
      simp [listed]

theorem filters_eq : (calls.foldl perform (create connects endpoints topics)).socket.filters =
    Change.tally (filtered connects endpoints topics calls) := by
  induction calls using List.reverseRecOn with
  | nil => exact create_filters connects endpoints topics
  | append_singleton calls call ih =>
      rw [List.foldl_append, List.foldl_cons, List.foldl_nil, perform_filters, ih, ← Change.tally_snoc]
      split
      · rename_i done
        simp [filtered, done]
      · rename_i throws
        simp [filtered, throws]

end ZmqStack

end ZmqPlayground
