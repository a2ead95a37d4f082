import ZmqPlayground.Delivery

/-! The wiring of the in-process program: four base stacks, two TCP stacks and the converter,
all on one proxy.

Every stack has one publisher, and one thread that uses it. What it publishes waits in a
queue of its own, also while the thread still has it in hand. The proxy takes a message
from the head of any of these queues and adds it to the queues of all stacks that are
connected to it and have a matching filter. The order of messages of different publishers is
left open there.
-/

set_option autoImplicit false

namespace ZmqPlayground

open Library
open Library.Runs

inductive Side where
  | netA
  | netB
  deriving DecidableEq

def Side.other : Side → Side
  | .netA => .netB
  | .netB => .netA

@[simp] theorem Side.other_other (side : Side) : side.other.other = side := by
  cases side <;> rfl

@[simp] theorem Side.other_inj {side side' : Side} : side.other = side'.other ↔ side = side' := by
  cases side <;> cases side' <;> decide

theorem Side.other_ne (side : Side) : side.other ≠ side := by
  cases side <;> decide

inductive Node where
  | stack (index : Fin 4)
  | net (side : Side)
  | conv
  deriving DecidableEq

/-- Which chunk a message goes back to. No stack reads it, it is carried along to tell
equal payloads apart. -/
structure Origin where
  side : Side
  number : ℕ
  deriving DecidableEq

structure Packet where
  msgs : Message
  origin : Option Origin
  deriving DecidableEq

structure Broadcast where
  payload : Str
  origin : Option Origin
  deriving DecidableEq

structure InprocStack where
  /-- The publication of the loop of `main` that comes next. -/
  turn : Fin 3
  conv : ConvStack
  frontend : Node → List Packet
  /-- The messages on their way to a subscriber. Those without a publisher are the proxy's own. -/
  backend : Option Node → Node → List Packet
  chunks : Side → List (List Byte)
  broadcasts : Side → List Broadcast

namespace InprocStack

def ingress : Side → Str
  | .netA => "net-a-ingress".toList
  | .netB => "net-b-ingress".toList

def egress : Side → Str
  | .netA => "net-a-egress".toList
  | .netB => "net-b-egress".toList

/-- `stack1Topics` to `stack4Topics`, `netASubTopics`, `netBSubTopics` and `convTopics`. -/
def subTopics : Node → List Str
  | .stack 0 => ["topic1".toList, "group".toList]
  | .stack 1 => ["topic2".toList, "group".toList]
  | .stack 2 => ["topic3".toList, "group".toList]
  | .stack 3 => ["topic4".toList, "group".toList]
  | .net side => [egress side]
  | .conv => [ingress .netA, ingress .netB]

/-- `netAPubTopics` and `netBPubTopics`. -/
def pubTopics (side : Side) : List Str := [ingress side]

def conversions : ConversionMap :=
  ((∅ : ConversionMap).insert (ingress .netA) [egress .netB]).insert (ingress .netB) [egress .netA]

def stackClass : Node → StackClass
  | .stack _ => .zmqStack
  | .net _ => .netStack
  | .conv => .convStack

/-- The three publications in the loop of `main`. -/
def mainLoop : Fin 3 → Fin 4 × Message
  | 0 => (0, .publication "topic2".toList "Message from stack1 to topic topic2".toList)
  | 1 => (1, .publication "topic1".toList "Message from stack2 to topic topic1".toList)
  | 2 => (3, .publication "group".toList "Message from stack3 to topic group".toList)

/-- The welcome message of the proxy's XPUB socket. -/
def welcome : Packet := ⟨⟨[welcomeTopic], List.cons_ne_nil _ _⟩, none⟩

/-- Where the proxy is bound for the subscribers: the last of the options `-p` says so. -/
def pubEndpoint (pubEndpoints : List Str) : Str := pubEndpoints.getLast?.getD "inproc://pub-endpoint".toList

/-- The subscribers connect to the options `-p` and to nothing else. Every `connect` succeeds. -/
def zmqStack (pubEndpoints : List Str) (node : Node) : ZmqStack :=
  .create (fun _ => true) pubEndpoints (subTopics node)

def create (pubEndpoints : List Str) : InprocStack where
  turn := 0
  conv := .create (fun _ => true) pubEndpoints (subTopics .conv) conversions
  frontend _ := []
  backend _ _ := []
  chunks _ := []
  broadcasts _ := []

/-- The socket of the converter is that of its state, the others never change. -/
def socket (pubEndpoints : List Str) (system : InprocStack) : Node → SubSocket
  | .conv => system.conv.socket
  | node => (zmqStack pubEndpoints node).socket

/-- The proxy has a way to a socket. An endpoint that is listed twice makes no second one. -/
def Linked (pubEndpoints : List Str) (socket : SubSocket) : Prop := pubEndpoint pubEndpoints ∈ socket.connected

instance (pubEndpoints : List Str) (socket : SubSocket) : Decidable (Linked pubEndpoints socket) :=
  inferInstanceAs (Decidable (_ ∈ _))

def upcoming (side : Side) (system : InprocStack) : Origin := ⟨side, (system.chunks side).length⟩

def recordChunk (side : Side) (data : List Byte) (system : InprocStack) : InprocStack :=
  { system with chunks := Function.update system.chunks side (system.chunks side ++ [data]) }

def recordBroadcast (side : Side) (broadcast : Broadcast) (system : InprocStack) : InprocStack :=
  { system with broadcasts := Function.update system.broadcasts side (system.broadcasts side ++ [broadcast]) }

/-- `Publish`: what a stack publishes goes back to the chunk that made it do so. -/
def publish (node : Node) (published : List Message) (origin : Option Origin) (system : InprocStack) :
    InprocStack :=
  { system with
    frontend := Function.update system.frontend node
      (system.frontend node ++ published.map fun msgs => ⟨msgs, origin⟩) }

def take (source : Node) (rest : List Packet) (system : InprocStack) : InprocStack :=
  { system with frontend := Function.update system.frontend source rest }

/-- The proxy adds a message to the queue of each subscriber that it can reach and that has a matching filter. -/
def forward (pubEndpoints : List Str) (source : Node) (packet : Packet) (system : InprocStack) :
    InprocStack :=
  { system with
    backend := Function.update system.backend (some source) fun node =>
      let socket := system.socket pubEndpoints node
      if Linked pubEndpoints socket ∧ Matches socket.filters packet.msgs.first then
        system.backend (some source) node ++ [packet]
      else system.backend (some source) node }

def arrange (source : Option Node) (node : Node) (queue : List Packet) (system : InprocStack) : InprocStack :=
  { system with
    backend := Function.update system.backend source (Function.update (system.backend source) node queue) }

section Fields
variable (pubEndpoints : List Str) (system : InprocStack) (side : Side) (node node' : Node)
  (source other : Option Node) (packet : Packet) (queue : List Packet) (published : List Message)
  (origin : Option Origin) (data : List Byte) (broadcast : Broadcast)

@[simp] theorem frontend_recordChunk : (system.recordChunk side data).frontend = system.frontend := rfl

@[simp] theorem backend_recordChunk : (system.recordChunk side data).backend = system.backend := rfl

@[simp] theorem broadcasts_recordChunk : (system.recordChunk side data).broadcasts = system.broadcasts := rfl

@[simp] theorem frontend_recordBroadcast : (system.recordBroadcast side broadcast).frontend = system.frontend := rfl

@[simp] theorem backend_recordBroadcast : (system.recordBroadcast side broadcast).backend = system.backend := rfl

@[simp] theorem broadcasts_recordBroadcast (side' : Side) :
    (system.recordBroadcast side broadcast).broadcasts side' =
      system.broadcasts side' ++ if side' = side then [broadcast] else [] := by
  by_cases same : side' = side
  · simp [recordBroadcast, same]
  · simp [recordBroadcast, same]

@[simp] theorem frontend_publish :
    (system.publish node published origin).frontend node' =
      system.frontend node' ++ if node' = node then published.map fun msgs => ⟨msgs, origin⟩ else [] := by
  by_cases same : node' = node
  · simp [publish, same]
  · simp [publish, same]

@[simp] theorem backend_publish : (system.publish node published origin).backend = system.backend := rfl

@[simp] theorem broadcasts_publish : (system.publish node published origin).broadcasts = system.broadcasts := rfl

@[simp] theorem frontend_take :
    (system.take node queue).frontend node' = if node' = node then queue else system.frontend node' := by
  simp [take, Function.update_apply]

@[simp] theorem backend_take : (system.take node queue).backend = system.backend := rfl

@[simp] theorem socket_take :
    (system.take node queue).socket pubEndpoints node' = system.socket pubEndpoints node' := by
  cases node' <;> rfl

@[simp] theorem broadcasts_take : (system.take node queue).broadcasts = system.broadcasts := rfl

@[simp] theorem frontend_forward : (system.forward pubEndpoints node packet).frontend = system.frontend := rfl

@[simp] theorem backend_forward :
    (system.forward pubEndpoints node packet).backend other node' = system.backend other node' ++
      if other = some node ∧ Linked pubEndpoints (system.socket pubEndpoints node') ∧
        Matches (system.socket pubEndpoints node').filters packet.msgs.first then [packet] else [] := by
  by_cases same : other = some node
  · subst same
    simp only [forward, Function.update_self, true_and]
    split
    · rfl
    · rw [List.append_nil]
  · simp [forward, same]

@[simp] theorem broadcasts_forward : (system.forward pubEndpoints node packet).broadcasts = system.broadcasts := rfl

@[simp] theorem frontend_arrange : (system.arrange source node queue).frontend = system.frontend := rfl

@[simp] theorem backend_arrange :
    (system.arrange source node queue).backend other node' =
      if other = source ∧ node' = node then queue else system.backend other node' := by
  by_cases same : other = source
  · subst same
    simp [arrange, Function.update_apply]
  · simp [arrange, same]

@[simp] theorem broadcasts_arrange : (system.arrange source node queue).broadcasts = system.broadcasts := rfl

end Fields

def react (node : Node) (origin : Option Origin) (system : InprocStack) :
    Reaction → InprocStack × List Message
  | .logs _ _ => (system, [])
  | .converts topic msg =>
      let (conv, published) := system.conv.convert topic msg
      ({ system with conv }.publish node published origin, published)
  | .broadcasts payload => match node with
      | .net side => (system.recordBroadcast side ⟨payload, origin⟩, [])
      | _ => (system, [])

/-- One message of the loop of `Subscriber::Run`. -/
def receive (node : Node) (packet : Packet) (system : InprocStack) : InprocStack × List Message :=
  match (deliver (stackClass node) .subscriber).eval packet.msgs.frames with
  | some (some reaction) => system.react node packet.origin reaction
  -- A welcome message is dropped, and every other one is read within its frames.
  | _ => (system, [])

inductive Label where
  /-- `onReceiveClientData` is called with what a client has sent. -/
  | chunk (side : Side) (data : List Byte)
  | main
  | welcome (node : Node)
  | forward (source : Node)
  | deliver (source : Option Node) (node : Node)
  deriving DecidableEq

/-- The events are the messages that are published. -/
def step (pubEndpoints : List Str) : Step InprocStack Label Message := fun system label =>
  match label with
  | .chunk side data =>
      let published := NetStack.onReceiveClientData (pubTopics side) data
      let origin := system.upcoming side
      some ((system.recordChunk side data).publish (.net side) published (some origin), published)
  | .main =>
      let (index, msgs) := mainLoop system.turn
      some ({ system with turn := system.turn + 1 }.publish (.stack index) [msgs] none, [msgs])
  | .welcome node =>
      if Linked pubEndpoints (system.socket pubEndpoints node) then
        some (system.arrange none node (system.backend none node ++ [welcome]), [])
      else none
  | .forward source => match system.frontend source with
      | [] => none
      | packet :: rest => some ((system.take source rest).forward pubEndpoints source packet, [])
  | .deliver source node => match system.backend source node with
      | [] => none
      | packet :: rest => some ((system.arrange source node rest).receive node packet)

end InprocStack

end ZmqPlayground
