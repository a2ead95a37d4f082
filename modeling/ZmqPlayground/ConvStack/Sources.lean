import ZmqPlayground.Common.Instances
import ZmqPlayground.Common.Sender
import ZmqPlayground.Delivery

/-! Where the messages of a converting stack come from, and which conversion they get.

The subscriber and the receiver call the same `onReceivedMessage`, which takes a
message of one frame for one of the first instance of one service.
-/

set_option autoImplicit false

namespace ZmqPlayground

open Library Library.Numerals

namespace ConvStack

inductive Source where
  /-- The proxy has forwarded it to the subscriber. -/
  | published (msgs : Message)
  /-- A sender has pushed it to the receiver, in a service with a configured name on a host. -/
  | pushed (name hostname : Str) (sender : Sender) (calls : Reconnect) (appMsg : Str)

namespace Source

def channel : Source → Channel
  | .published _ => .subscriber
  | .pushed _ _ _ _ _ => .receiver

def msgs : Source → Message
  | .published msgs => msgs
  | .pushed _ _ sender calls appMsg => (sender.sendMsg calls appMsg).1

def topic : Source → Str
  | .published msgs => msgs.first
  | .pushed name hostname _ _ _ => ingress (Service.main name hostname).name

/-- The message is neither a welcome message nor a control message of the bus. -/
def Reaches : Source → Prop
  | .published msgs => Subscriber.kind msgs.first = .application
  | .pushed _ _ _ _ _ => True

/-- The message has a frame for its topic, or it is from the topic that those without one are taken to
be from. -/
def Named : Source → Prop
  | .published msgs => 2 ≤ msgs.frames.length ∨ msgs.first = receiverTopic
  | .pushed name hostname _ _ _ => name = "zmqStack".toList ∧ getContainerInstance hostname = 0

instance (source : Source) : Decidable source.Reaches :=
  match source with
  | .published msgs => inferInstanceAs (Decidable (Subscriber.kind msgs.first = .application))
  | .pushed _ _ _ _ _ => isTrue trivial

instance (source : Source) : Decidable source.Named :=
  match source with
  | .published _ => inferInstanceAs (Decidable (_ ∨ _))
  | .pushed _ _ _ _ _ => inferInstanceAs (Decidable (_ ∧ _))

end Source

/-- The topic and the payload that `onReceivedMessage` finds, where the thread calls it. -/
def conversion (channel : Channel) (msgs : Message) : Option (Str × Str) :=
  match (deliver .convStack channel).eval msgs.frames with
  | some (some (.converts topic msg)) => some (topic, msg)
  | _ => none

/-- What the subscriber or the receiver has received, and what is published because of it. -/
def accept (channel : Channel) (msgs : Message) (stack : ConvStack) : ConvStack × List Message :=
  match conversion channel msgs with
  | some (topic, msg) => stack.convert topic msg
  | none => (stack, [])

def Source.key (source : Source) : Option Str :=
  (conversion source.channel source.msgs).map Prod.fst

theorem conversion_receiver (msgs : Message) : conversion .receiver msgs = some (route msgs) := by
  rw [conversion, deliver, Reads.eval_bind]
  simp only [StackClass.target, eval_onReceivedMessage, Option.bind_some]
  rfl

theorem conversion_subscriber (msgs : Message) : conversion .subscriber msgs =
    if Subscriber.kind msgs.first = .application then some (route msgs) else none := by
  rw [conversion, deliver, Subscriber.eval_dispatch]
  cases Subscriber.kind msgs.first with
  | welcome => rfl
  | ctrl =>
      simp only [StackClass.target, onCtrlMessage, eval_logFrames]
      cases msgs.frames[1]? <;> rfl
  | application =>
      simp only [StackClass.target, eval_onReceivedMessage]
      rfl

theorem Source.conversion_eq (source : Source) : conversion source.channel source.msgs =
    if source.Reaches then some (route source.msgs) else none := by
  cases source with
  | published msgs => exact conversion_subscriber msgs
  | pushed name hostname sender calls appMsg => exact conversion_receiver _

theorem accept_source (source : Source) (stack : ConvStack) :
    stack.accept source.channel source.msgs = (stack, match source.key with
      | some key => ZmqStack.publish (stack.outputs key) (route source.msgs).2
      | none => []) := by
  rw [accept, Source.key, Source.conversion_eq]
  by_cases reaches : source.Reaches
  · simp only [if_pos reaches, Option.map_some]
    exact convert_eq _ _ _
  · simp only [if_neg reaches, Option.map_none]

theorem route_single {msgs : Message} {frame : Str} (single : msgs.frames = [frame]) :
    route msgs = (receiverTopic, frame) := by
  rw [route, single]

theorem route_first {msgs : Message} (several : 2 ≤ msgs.frames.length) : (route msgs).1 = msgs.first := by
  obtain ⟨frames, nonempty⟩ := msgs
  match frames, nonempty with
  | [_], _ => simp at several
  | _ :: _ :: _, _ => rfl

/-- The topic of the receiver is the one of the first instance of one service. -/
theorem ingress_eq_receiverTopic_iff (name hostname : Str) :
    ingress (Service.main name hostname).name = receiverTopic ↔
      name = "zmqStack".toList ∧ getContainerInstance hostname = 0 := by
  have own : receiverTopic = ingress (ZmqPlayground.hostname "zmqStack".toList 0) := by decide
  rw [own, ingress, ingress, List.append_left_inj]
  exact hostname_inj

/-- A message gets the conversion of its key. That is the topic it was sent under, exactly if it has a
frame for its topic or is from the one topic that those without are taken to be from. -/
theorem key_own_iff (source : Source) :
    (∀ stack : ConvStack, stack.accept source.channel source.msgs = (stack, match source.key with
      | some key => ZmqStack.publish (stack.outputs key) (route source.msgs).2
      | none => [])) ∧
    ((∀ key, source.key = some key → key = source.topic) ↔ (source.Reaches → source.Named)) := by
  apply And.intro (accept_source source)
  rw [Source.key, Source.conversion_eq]
  by_cases reaches : source.Reaches
  · simp only [reaches, if_true, Option.map_some, Option.some.injEq, forall_eq', true_imp_iff]
    cases source with
    | published msgs =>
        simp only [Source.msgs, Source.topic, Source.Named]
        by_cases several : 2 ≤ msgs.frames.length
        · exact iff_of_true (route_first several) (.inl several)
        · have one : msgs.frames.length = 1 := by
            have := msgs.length_pos
            omega
          obtain ⟨frame, single⟩ := List.length_eq_one_iff.mp one
          rw [route_single single, or_iff_right several, eq_comm]
    | pushed name hostname sender calls appMsg =>
        have single : (sender.sendMsg calls appMsg).1.frames = [appMsg] := rfl
        simp only [Source.msgs, Source.topic, Source.Named]
        rw [route_single single, eq_comm, ingress_eq_receiverTopic_iff]
  · simp [reaches]

def chartStack : ConvStack :=
  let conversions : ConversionMap :=
    ((∅ : ConversionMap).insert "zmqStack-0-ingress".toList ["zmqStack-1-egress".toList]).insert
      "zmqStack-1-ingress".toList ["zmqStack-2-egress".toList]
  .create (fun _ => true) [] [] conversions

/-- What the second instance pushes gets the conversion of the first. -/
theorem second_instance_misrouted :
    let source : Source := .pushed "zmqStack".toList "zmq-stack-1".toList
      (.create .done "tcp://conv-stack:6005".toList) ⟨.done, .done⟩ "hello".toList
    source.topic = "zmqStack-1-ingress".toList ∧
      (chartStack.accept source.channel source.msgs).2 = [.publication "zmqStack-1-egress".toList "hello".toList] ∧
      ¬ ∀ key, source.key = some key → key = source.topic := by
  refine ⟨by decide, by decide, fun own => ?_⟩
  exact absurd (own "zmqStack-0-ingress".toList (by decide)) (by decide)

end ConvStack

end ZmqPlayground
