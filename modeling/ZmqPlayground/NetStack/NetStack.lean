import ZmqPlayground.Common.SocketCore
import ZmqPlayground.Common.ZmqStack

/-! The TCP stack's callbacks for messages from the bus and for the data of its clients. -/

set_option autoImplicit false

namespace ZmqPlayground

open Library

def ofBytes (data : List Byte) : Str := data.map fun byte => Char.ofNat byte.toNat

def toBytes (text : Str) : List Byte := text.map fun char => char.toNat.toUInt8

theorem toNat_ofNat_byte (byte : Byte) : (Char.ofNat byte.toNat).toNat = byte.toNat := by
  have small := byte.toNat_lt
  have valid : byte.toNat.isValidChar := .inl (by omega)
  rw [Char.ofNat, dif_pos valid]
  rfl

theorem toBytes_ofBytes (data : List Byte) : toBytes (ofBytes data) = data := by
  simp [toBytes, ofBytes, Function.comp_def, toNat_ofNat_byte]

namespace NetStack

/-- The frames are logged, then the data and the size of the second are passed to `sendBcast`. -/
def onReceivedMessage : Reads Str Reaction := do
  let _msg ← Reads.get 1
  let _topic ← Reads.get 0
  let data ← Reads.get 1
  let sized ← Reads.get 1
  return .broadcasts (data.take sized.length)

def onCtrlMessage : Reads Str Reaction := logFrames

/-- The data of a client is published on each topic of the list. -/
def onReceiveClientData (pubTopics : List Str) (data : List Byte) : List Message :=
  ZmqStack.publish pubTopics (ofBytes data)

theorem eval_onReceivedMessage (frames : List Str) :
    onReceivedMessage.eval frames = frames[1]?.map .broadcasts := by
  match frames with
  | [] | [_] => rfl
  | _ :: data :: _ =>
      simp [onReceivedMessage]

end NetStack

end ZmqPlayground
