import ZmqPlayground.ConvStack.ConvStack
import ZmqPlayground.NetStack.NetStack

/-! Which frames the stacks read of a message a peer chose.

The base class and the converting stack look at the number of frames before they
read the second one. The TCP stack and all three `onCtrlMessage` do not.
-/

set_option autoImplicit false

namespace ZmqPlayground

open Library

inductive StackClass where
  | zmqStack
  | convStack
  | netStack
  deriving DecidableEq

def StackClass.target : StackClass → Subscriber.Target Reaction
  | .zmqStack => ⟨ZmqStack.onReceivedMessage, ZmqStack.onCtrlMessage⟩
  | .convStack => ⟨ConvStack.onReceivedMessage, ConvStack.onCtrlMessage⟩
  | .netStack => ⟨NetStack.onReceivedMessage, NetStack.onCtrlMessage⟩

/-- The thread a message arrives on: the subscriber's or the receiver's. -/
inductive Channel where
  | subscriber
  | receiver
  deriving DecidableEq

/-- `Subscriber::Run` picks a callback by the first frame, `Receiver::Run` has only one. -/
def deliver (stack : StackClass) : Channel → Reads Str (Option Reaction)
  | .subscriber => Subscriber.dispatch stack.target
  | .receiver => do return some (← stack.target.onReceivedMessage)

theorem onCtrlMessage_reads (stack : StackClass) (msgs : Message) :
    (stack.target.onCtrlMessage.eval msgs.frames).isSome ↔ 2 ≤ msgs.frames.length := by
  have shared : stack.target.onCtrlMessage = logFrames := by cases stack <;> rfl
  rw [shared, eval_logFrames, Option.isSome_map, isSome_getElem?]
  rfl

theorem onReceivedMessage_reads (stack : StackClass) (msgs : Message) :
    (stack.target.onReceivedMessage.eval msgs.frames).isSome ↔
      stack ≠ .netStack ∨ 2 ≤ msgs.frames.length := by
  cases stack with
  | zmqStack =>
      refine iff_of_true ?_ (.inl (by decide))
      simp only [StackClass.target, ZmqStack.onReceivedMessage, Reads.eval_bind,
        Reads.eval_length, Option.bind_some]
      have some_frame := msgs.length_pos
      split
      · simp [msgs.frames_zero]
      · rw [eval_logFrames, Option.isSome_map, isSome_getElem?]
        omega
  | convStack => simp [StackClass.target, ConvStack.eval_onReceivedMessage]
  | netStack =>
      rw [StackClass.target, NetStack.eval_onReceivedMessage, Option.isSome_map, isSome_getElem?]
      simp only [ne_eq, not_true_eq_false, false_or]
      rfl

/-- A message is read within its frames exactly if it has two of them, or the callback it is
dispatched to guards against one frame, or it is dropped as a welcome message. -/
theorem deliver_inBounds_iff (stack : StackClass) (channel : Channel) (msgs : Message) :
    (deliver stack channel).InBounds msgs.frames ↔
      2 ≤ msgs.frames.length ∨
      stack ≠ .netStack ∧ (channel = .receiver ∨ msgs.first ≠ ctrlTopic) ∨
      channel = .subscriber ∧ msgs.first = welcomeTopic := by
  have received := onReceivedMessage_reads stack msgs
  have ctrl := onCtrlMessage_reads stack msgs
  rw [Reads.inBounds_iff_eval]
  cases channel with
  | receiver =>
      have plain : ((deliver stack .receiver).eval msgs.frames).isSome =
          (stack.target.onReceivedMessage.eval msgs.frames).isSome := by
        rw [deliver, Reads.eval_bind]
        cases stack.target.onReceivedMessage.eval msgs.frames <;> rfl
      rw [plain, received]
      simp only [true_or, and_true, reduceCtorEq, false_and, or_false]
      exact or_comm
  | subscriber =>
      have different : welcomeTopic ≠ ctrlTopic := by decide
      rw [deliver, Subscriber.eval_dispatch, Subscriber.kind]
      split_ifs with welcome isCtrl
      · simp [welcome]
      · simp [isCtrl, ctrl, different.symm]
      · simp [received, welcome, isCtrl, or_comm]

def singleFrame : Message := ⟨["net-stack-0-egress".toList], List.cons_ne_nil _ _⟩

/-- A peer that publishes a single frame makes the TCP stack read a second one. -/
theorem netStack_reads_past_frames :
    Matches (Subscriber.setUp (fun _ => true) [] ["net-stack-0-egress".toList]).filters singleFrame.first ∧
      ¬ (deliver .netStack .subscriber).InBounds singleFrame.frames := by
  decide

end ZmqPlayground
