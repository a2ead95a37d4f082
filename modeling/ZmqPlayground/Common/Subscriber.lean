import ZmqPlayground.Common.Message
import ZmqPlayground.Library.Reads

/-! The subscriber: its socket, its set-up and the body of its receive loop. -/

set_option autoImplicit false

namespace ZmqPlayground

open Library

structure SubSocket where
  filters : Filters
  connected : List Str
  deriving DecidableEq

namespace SubSocket

def subscribe (socket : SubSocket) (topic : Str) : SubSocket :=
  { socket with filters := topic ::ₘ socket.filters }

/-- One instance of a filter is removed, if there is one. -/
def unsubscribe (socket : SubSocket) (topic : Str) : SubSocket :=
  { socket with filters := socket.filters.erase topic }

def connect (socket : SubSocket) (endpoint : Str) : SubSocket :=
  { socket with connected := socket.connected ++ [endpoint] }

@[simp] theorem filters_subscribe (socket : SubSocket) (topic : Str) :
    (socket.subscribe topic).filters = topic ::ₘ socket.filters := rfl

@[simp] theorem connected_subscribe (socket : SubSocket) (topic : Str) :
    (socket.subscribe topic).connected = socket.connected := rfl

@[simp] theorem filters_connect (socket : SubSocket) (endpoint : Str) :
    (socket.connect endpoint).filters = socket.filters := rfl

end SubSocket

namespace Subscriber

/-- The endpoints in order up to the first whose `connect` throws, and whether none did. -/
def connectAll (connects : Str → Bool) (socket : SubSocket) : List Str → SubSocket × Bool
  | [] => (socket, true)
  | endpoint :: endpoints =>
      if connects endpoint then connectAll connects (socket.connect endpoint) endpoints
      else (socket, false)

/-- The `try` block at the head of `Subscriber::Run`: an exception ends it. -/
def setUp (connects : Str → Bool) (endpoints topics : List Str) : SubSocket :=
  let socket := (SubSocket.mk 0 []).subscribe welcomeTopic |>.subscribe ctrlTopic
  match connectAll connects socket endpoints with
  | (socket, true) => topics.foldl SubSocket.subscribe socket
  | (socket, false) => socket

theorem connectAll_filters (connects : Str → Bool) (socket : SubSocket) (endpoints : List Str) :
    (connectAll connects socket endpoints).1.filters = socket.filters := by
  induction endpoints generalizing socket with
  | nil => rfl
  | cons endpoint endpoints ih =>
      rw [connectAll]
      split
      · rw [ih, SubSocket.filters_connect]
      · rfl

theorem connectAll_snd (connects : Str → Bool) (socket : SubSocket) (endpoints : List Str) :
    (connectAll connects socket endpoints).2 = endpoints.all connects := by
  induction endpoints generalizing socket with
  | nil => rfl
  | cons endpoint endpoints ih =>
      rw [connectAll, List.all_cons]
      split
      · rename_i connected
        rw [ih, connected, Bool.true_and]
      · rename_i throws
        rw [Bool.eq_false_iff.mpr throws, Bool.false_and]

theorem foldl_subscribe_filters (socket : SubSocket) (topics : List Str) :
    (topics.foldl SubSocket.subscribe socket).filters = (topics : Multiset Str) + socket.filters := by
  induction topics generalizing socket with
  | nil => simp
  | cons topic topics ih =>
      rw [List.foldl_cons, ih, SubSocket.filters_subscribe, Multiset.add_cons,
        ← Multiset.cons_coe, Multiset.cons_add]

theorem foldl_subscribe_connected (socket : SubSocket) (topics : List Str) :
    (topics.foldl SubSocket.subscribe socket).connected = socket.connected := by
  induction topics generalizing socket with
  | nil => rfl
  | cons topic topics ih => rw [List.foldl_cons, ih, SubSocket.connected_subscribe]

theorem connectAll_connected (connects : Str → Bool) (socket : SubSocket) (endpoints : List Str) :
    (connectAll connects socket endpoints).1.connected = socket.connected ++ endpoints.takeWhile connects := by
  induction endpoints generalizing socket with
  | nil => simp [connectAll]
  | cons endpoint endpoints ih =>
      rw [connectAll, List.takeWhile_cons]
      split
      · rw [ih, SubSocket.connect, List.append_assoc, List.singleton_append]
      · rw [List.append_nil]

def unconnected : SubSocket := (SubSocket.mk 0 []).subscribe welcomeTopic |>.subscribe ctrlTopic

/-- The topics come after the endpoints, so that one which throws costs all of them. -/
theorem setUp_eq (connects : Str → Bool) (endpoints topics : List Str) :
    setUp connects endpoints topics =
      if endpoints.all connects then topics.foldl SubSocket.subscribe (connectAll connects unconnected endpoints).1
      else (connectAll connects unconnected endpoints).1 := by
  rw [← connectAll_snd connects unconnected endpoints, setUp, unconnected]
  generalize connectAll connects _ endpoints = outcome
  obtain ⟨socket, succeeded⟩ := outcome
  cases succeeded <;> rfl

theorem setUp_filters {connects : Str → Bool} {endpoints : List Str} (topics : List Str)
    (all : ∀ endpoint ∈ endpoints, connects endpoint = true) :
    (setUp connects endpoints topics).filters = (topics : Multiset Str) + {ctrlTopic, welcomeTopic} := by
  rw [setUp_eq, if_pos (List.all_eq_true.mpr all), foldl_subscribe_filters, connectAll_filters]
  rfl

theorem setUp_filters_of_throws {connects : Str → Bool} {endpoints : List Str} (topics : List Str) {bad : Str}
    (member : bad ∈ endpoints) (throws : connects bad = false) :
    (setUp connects endpoints topics).filters = {ctrlTopic, welcomeTopic} := by
  have failed : ¬ endpoints.all connects = true := by
    rw [Bool.not_eq_true, List.all_eq_false]
    exact ⟨bad, member, by simp [throws]⟩
  rw [setUp_eq, if_neg failed, connectAll_filters]
  rfl

/-- The first endpoint that throws ends the loop, whatever stands behind it. -/
theorem setUp_connected (connects : Str → Bool) (endpoints topics : List Str) :
    (setUp connects endpoints topics).connected = endpoints.takeWhile connects := by
  have connected := connectAll_connected connects unconnected endpoints
  rw [setUp_eq]
  split
  · rw [foldl_subscribe_connected]
    exact connected
  · exact connected

structure Target (A : Type) where
  onReceivedMessage : Reads Str A
  onCtrlMessage : Reads Str A

inductive Kind where
  | welcome
  | ctrl
  | application
  deriving DecidableEq

def kind (topic : Str) : Kind :=
  if topic = welcomeTopic then .welcome else if topic = ctrlTopic then .ctrl else .application

/-- What the loop does with the frames of one message; the welcome message is dropped. -/
def dispatch {A : Type} (target : Target A) : Reads Str (Option A) := do
  let topic ← Reads.get 0
  if topic = welcomeTopic then
    return none
  else
    let topic ← Reads.get 0
    if topic = ctrlTopic then
      return some (← target.onCtrlMessage)
    else
      return some (← target.onReceivedMessage)

theorem eval_dispatch {A : Type} (target : Target A) (msgs : Message) :
    (dispatch target).eval msgs.frames = match kind msgs.first with
      | .welcome => some none
      | .ctrl => (target.onCtrlMessage.eval msgs.frames).map some
      | .application => (target.onReceivedMessage.eval msgs.frames).map some := by
  simp only [dispatch, Reads.eval_bind, Reads.eval_get, msgs.frames_zero, Option.bind_some, kind]
  split
  · rfl
  · simp only [Reads.eval_bind, Reads.eval_get, msgs.frames_zero, Option.bind_some]
    split
    · rw [Reads.eval_bind]
      cases target.onCtrlMessage.eval msgs.frames <;> rfl
    · rw [Reads.eval_bind]
      cases target.onReceivedMessage.eval msgs.frames <;> rfl

/-- What one turn of the loop meets. A message whose callback throws a `zmq::error_t` is marked. -/
inductive Turn where
  | timeout
  | message (msgs : Message) (throws : Bool)
  | failed

structure Loop where
  count : UInt32
  received : Nat
  running : Bool
  deriving DecidableEq

def Loop.initial : Loop := ⟨0, 0, true⟩

/-- The body of the loop. `continue` skips the increment at its end, an exception leaves the loop. -/
def Loop.turn (loop : Loop) : Turn → Loop
  | .timeout => { loop with count := loop.count + 1 }
  | .message msgs throws => match kind msgs.first with
      | .welcome => loop
      | .ctrl => { loop with running := !throws }
      | .application =>
          if throws then { loop with received := loop.received + 1, running := false }
          else { loop with received := loop.received + 1, count := loop.count + 1 }
  | .failed => { loop with running := false }

def Turn.completes : Turn → Bool
  | .timeout => true
  | .message msgs throws => kind msgs.first = .welcome || !throws
  | .failed => false

end Subscriber

end ZmqPlayground
