import Mathlib.Data.List.AList
import ZmqPlayground.Common.ZmqStack

/-! The converting stack: a map from the topic of a message to the topics it is published to. -/

set_option autoImplicit false

namespace ZmqPlayground

open Library

abbrev ConversionMap := AList (fun _ : Str => List Str)

/-- `std::map::operator[]`: a missing key is inserted with an empty value. -/
def ConversionMap.index (map : ConversionMap) (key : Str) : List Str × ConversionMap :=
  match map.lookup key with
  | some topics => (topics, map)
  | none => ([], map.insert key [])

theorem ConversionMap.index_of_lookup {map : ConversionMap} {key : Str} {topics : List Str}
    (found : map.lookup key = some topics) : map.index key = (topics, map) := by
  simp [index, found]

structure ConvStack extends ZmqStack where
  conversionMap : ConversionMap
  deriving DecidableEq

namespace ConvStack

/-- The topic a message of one frame is taken to have been sent under. -/
def receiverTopic : Str := "zmqStack-0-ingress".toList

/-- The first half of `onReceivedMessage`, which finds the topic and the payload. -/
def onReceivedMessage : Reads Str Reaction := do
  if (← Reads.length) = 1 then
    return .converts receiverTopic (← Reads.get 0)
  else
    let topic ← Reads.get 0
    let msg ← Reads.get 1
    return .converts topic msg

def onCtrlMessage : Reads Str Reaction := logFrames

/-- The second half of `onReceivedMessage`: `find`, then `operator[]`, then one publication for
each topic of the list. -/
def convert (topic msg : Str) (stack : ConvStack) : ConvStack × List Message :=
  match stack.conversionMap.lookup topic with
  | none => (stack, [])
  | some _ =>
      let (topics, map) := stack.conversionMap.index topic
      ({ stack with conversionMap := map }, ZmqStack.publish topics msg)

def addConversion (option : SocketCall) (subTopic : Str) (pubTopics : List Str) (stack : ConvStack) :
    ConvStack × SocketCall :=
  match stack.subscribe option subTopic with
  | (base, .done) =>
      ({ base with conversionMap := stack.conversionMap.insert subTopic pubTopics }, .done)
  | (base, .throws) => ({ base with conversionMap := stack.conversionMap }, .throws)

def removeConversion (option : SocketCall) (subTopic : Str) (stack : ConvStack) :
    ConvStack × SocketCall :=
  match stack.unsubscribe option subTopic with
  | (base, .done) => ({ base with conversionMap := stack.conversionMap.erase subTopic }, .done)
  | (base, .throws) => ({ base with conversionMap := stack.conversionMap }, .throws)

def create (connects : Str → Bool) (pubEndpoints subTopics : List Str) (conversions : ConversionMap) :
    ConvStack :=
  ⟨ZmqStack.create connects pubEndpoints subTopics, conversions⟩

def outputs (stack : ConvStack) (topic : Str) : List Str :=
  (stack.conversionMap.lookup topic).getD []

/-- `find` and `operator[]` agree: a lookup never inserts, and it publishes to the mapped list. -/
theorem convert_eq (topic msg : Str) (stack : ConvStack) :
    stack.convert topic msg = (stack, ZmqStack.publish (stack.outputs topic) msg) := by
  rw [convert, outputs]
  cases found : stack.conversionMap.lookup topic with
  | none => rfl
  | some topics => rw [ConversionMap.index_of_lookup found]; rfl

def route (msgs : Message) : Str × Str :=
  match msgs.frames with
  | topic :: msg :: _ => (topic, msg)
  | [msg] => (receiverTopic, msg)
  | [] => (receiverTopic, [])

theorem eval_onReceivedMessage (msgs : Message) :
    onReceivedMessage.eval msgs.frames = some (.converts (route msgs).1 (route msgs).2) := by
  obtain ⟨frames, nonempty⟩ := msgs
  match frames, nonempty with
  | [msg], _ => rfl
  | topic :: msg :: rest, _ => rfl

end ConvStack

end ZmqPlayground
