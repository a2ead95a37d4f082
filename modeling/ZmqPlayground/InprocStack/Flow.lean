import ZmqPlayground.InprocStack.InprocStack
import ZmqPlayground.Library.Chain

/-! The chunks on their way from the clients of one TCP stack to those of the other. -/

set_option autoImplicit false

namespace ZmqPlayground

open Library
open Library.Runs

namespace InprocStack

/-- The filters a stack has installed, whatever it is connected to. -/
def inForce (node : Node) : Filters := (subTopics node : Multiset Str) + {ctrlTopic, welcomeTopic}

theorem zmqStack_filters (pubEndpoints : List Str) (node : Node) :
    (zmqStack pubEndpoints node).socket.filters = inForce node :=
  Subscriber.setUp_filters (subTopics node) fun _ _ => rfl

theorem linked_zmqStack (pubEndpoints : List Str) (node : Node) :
    Linked pubEndpoints (zmqStack pubEndpoints node).socket ↔ pubEndpoint pubEndpoints ∈ pubEndpoints := by
  have connected : (zmqStack pubEndpoints node).socket.connected = pubEndpoints :=
    (Subscriber.setUp_connected _ _ _).trans (List.takeWhile_eq_self_iff.mpr fun _ _ => rfl)
  rw [Linked, connected]

theorem matches_ingress (side : Side) (node : Node) :
    Matches (inForce node) (ingress side) ↔ node = .conv := by
  cases node with
  | stack index =>
      revert index
      cases side <;> decide
  | net other => cases side <;> cases other <;> decide
  | conv => cases side <;> decide

theorem matches_egress (side : Side) (node : Node) :
    Matches (inForce node) (egress side) ↔ node = .net side := by
  cases node with
  | stack index =>
      revert index
      cases side <;> decide
  | net other => cases side <;> cases other <;> decide
  | conv => cases side <;> decide

theorem not_matches_mainLoop (turn : Fin 3) (side : Side) :
    ¬ Matches (inForce (.net side)) (mainLoop turn).2.first ∧
      ¬ Matches (inForce .conv) (mainLoop turn).2.first := by
  revert turn
  cases side <;> decide

theorem lookup_conversions (side : Side) : conversions.lookup (ingress side) = some [egress side.other] := by
  cases side <;> decide

theorem kind_ingress (side : Side) : Subscriber.kind (ingress side) = .application := by
  cases side <;> decide

theorem kind_egress (side : Side) : Subscriber.kind (egress side) = .application := by
  cases side <;> decide

def outward (origin : Origin) (payload : Str) : Packet :=
  ⟨.publication (ingress origin.side) payload, some origin⟩

def inward (origin : Origin) (payload : Str) : Packet :=
  ⟨.publication (egress origin.side.other) payload, some origin⟩

inductive Waits : Node → Packet → Prop where
  | main (turn : Fin 3) : Waits (.stack (mainLoop turn).1) ⟨(mainLoop turn).2, none⟩
  | chunk (origin : Origin) (payload : Str) : Waits (.net origin.side) (outward origin payload)
  | converted (origin : Origin) (payload : Str) : Waits .conv (inward origin payload)

inductive Arrives : Option Node → Node → Packet → Prop where
  | welcome (node : Node) : Arrives none node welcome
  | main (turn : Fin 3) (index : Fin 4) :
      Arrives (some (.stack (mainLoop turn).1)) (.stack index) ⟨(mainLoop turn).2, none⟩
  | chunk (origin : Origin) (payload : Str) : Arrives (some (.net origin.side)) .conv (outward origin payload)
  | converted (origin : Origin) (payload : Str) :
      Arrives (some .conv) (.net origin.side.other) (inward origin payload)

theorem Waits.arrives {source node : Node} {packet : Packet} (waits : Waits source packet)
    (matched : Matches (inForce node) packet.msgs.first) : Arrives (some source) node packet := by
  cases waits with
  | main turn =>
      cases node with
      | stack index => exact .main turn index
      | net side => exact absurd matched (not_matches_mainLoop turn side).1
      | conv => exact absurd matched (not_matches_mainLoop turn .netA).2
  | chunk origin payload =>
      obtain rfl := (matches_ingress origin.side node).mp matched
      exact .chunk origin payload
  | converted origin payload =>
      obtain rfl := (matches_egress origin.side.other node).mp matched
      exact .converted origin payload

/-- What holds in every state, of the converter and of the messages in flight. -/
structure Wired (pubEndpoints : List Str) (system : InprocStack) : Prop where
  conv : system.conv = .create (fun _ => true) pubEndpoints (subTopics .conv) conversions
  waits : ∀ node, ∀ packet ∈ system.frontend node, Waits node packet
  arrives : ∀ source node, ∀ packet ∈ system.backend source node, Arrives source node packet

variable {pubEndpoints : List Str} {system after : InprocStack} {label : Label} {events : List Message}

theorem Wired.socket (wired : Wired pubEndpoints system) (node : Node) :
    system.socket pubEndpoints node = (zmqStack pubEndpoints node).socket := by
  cases node with
  | conv =>
      rw [InprocStack.socket, wired.conv]
      rfl
  | stack | net => rfl

theorem Wired.filters (wired : Wired pubEndpoints system) (node : Node) :
    (system.socket pubEndpoints node).filters = inForce node := by
  rw [wired.socket, zmqStack_filters]

theorem Wired.linked (wired : Wired pubEndpoints system) (node : Node) :
    Linked pubEndpoints (system.socket pubEndpoints node) ↔ pubEndpoint pubEndpoints ∈ pubEndpoints := by
  rw [wired.socket, linked_zmqStack]

theorem create_wired (pubEndpoints : List Str) : Wired pubEndpoints (create pubEndpoints) where
  conv := rfl
  waits _ _ member := by cases member
  arrives _ _ _ member := by cases member

theorem deliver_publication (stack : StackClass) {topic : Str} (payload : Str)
    (application : Subscriber.kind topic = .application) :
    (deliver stack .subscriber).eval (Message.publication topic payload).frames =
      (stack.target.onReceivedMessage.eval [topic, payload]).map some := by
  rw [deliver, Subscriber.eval_dispatch, Message.first_publication, application]
  rfl

theorem receive_welcome (node : Node) (system : InprocStack) : system.receive node welcome = (system, []) := by
  have dropped : (deliver (stackClass node) .subscriber).eval welcome.msgs.frames = some none := by
    rw [deliver, Subscriber.eval_dispatch]
    rfl
  rw [receive, dropped]

theorem receive_main (turn : Fin 3) (index : Fin 4) (system : InprocStack) :
    system.receive (.stack index) ⟨(mainLoop turn).2, none⟩ = (system, []) := by
  match turn with
  | 0 | 1 | 2 => rfl

theorem receive_chunk (wired : Wired pubEndpoints system) (origin : Origin) (payload : Str) :
    system.receive .conv (outward origin payload) =
      (system.publish .conv [.publication (egress origin.side.other) payload] (some origin),
        [.publication (egress origin.side.other) payload]) := by
  have outputs : system.conv.outputs (ingress origin.side) = [egress origin.side.other] := by
    rw [ConvStack.outputs, wired.conv, ConvStack.create, lookup_conversions]
    rfl
  rw [receive, outward, deliver_publication _ _ (kind_ingress _)]
  rw [show (StackClass.target (stackClass .conv)).onReceivedMessage.eval [ingress origin.side, payload] =
    some (.converts (ingress origin.side) payload) from rfl]
  rw [Option.map_some]
  dsimp only [react]
  rw [ConvStack.convert_eq, outputs]
  rfl

theorem receive_converted (side : Side) (origin : Origin) (payload : Str) (system : InprocStack) :
    system.receive (.net side) (inward origin payload) =
      (system.recordBroadcast side ⟨payload, some origin⟩, []) := by
  rw [receive, inward, deliver_publication _ _ (kind_egress _), stackClass, StackClass.target,
    NetStack.eval_onReceivedMessage]
  rfl

inductive Moved (pubEndpoints : List Str) (system : InprocStack) :
    Label → InprocStack → List Message → Prop where
  | chunk (side : Side) (data : List Byte) (msgs : Message) :
      msgs = (outward (system.upcoming side) (ofBytes data)).msgs →
      Moved pubEndpoints system (.chunk side data)
        ((system.recordChunk side data).publish (.net side) [msgs] (some (system.upcoming side))) [msgs]
  | main (index : Fin 4) (msgs : Message) : mainLoop system.turn = (index, msgs) →
      Moved pubEndpoints system .main
        ({ system with turn := system.turn + 1 }.publish (.stack index) [msgs] none) [msgs]
  | welcome {node : Node} : Linked pubEndpoints (system.socket pubEndpoints node) →
      Moved pubEndpoints system (.welcome node)
        (system.arrange none node (system.backend none node ++ [welcome])) []
  | forward {source : Node} {packet : Packet} {rest : List Packet} :
      system.frontend source = packet :: rest → Waits source packet →
      Moved pubEndpoints system (.forward source)
        ((system.take source rest).forward pubEndpoints source packet) []
  | drops {source : Option Node} {node : Node} {packet : Packet} {rest : List Packet} :
      system.backend source node = packet :: rest → packet.origin = none →
      Moved pubEndpoints system (.deliver source node) (system.arrange source node rest) []
  | converts {origin : Origin} {payload : Str} {rest : List Packet} :
      system.backend (some (.net origin.side)) .conv = outward origin payload :: rest →
      Moved pubEndpoints system (.deliver (some (.net origin.side)) .conv)
        ((system.arrange (some (.net origin.side)) .conv rest).publish .conv
          [(inward origin payload).msgs] (some origin))
        [(inward origin payload).msgs]
  | broadcasts {origin : Origin} {payload : Str} {rest : List Packet} :
      system.backend (some .conv) (.net origin.side.other) = inward origin payload :: rest →
      Moved pubEndpoints system (.deliver (some .conv) (.net origin.side.other))
        ((system.arrange (some .conv) (.net origin.side.other) rest).recordBroadcast origin.side.other
          ⟨payload, some origin⟩) []

theorem Wired.arrange (wired : Wired pubEndpoints system) {source : Option Node} {node : Node} {queue : List Packet}
    (arrive : ∀ packet ∈ queue, Arrives source node packet) :
    Wired pubEndpoints (system.arrange source node queue) where
  conv := wired.conv
  waits := wired.waits
  arrives other node' packet member := by
    rw [backend_arrange] at member
    split at member
    · rename_i same
      obtain ⟨rfl, rfl⟩ := same
      exact arrive packet member
    · exact wired.arrives other node' packet member

theorem Wired.publish (wired : Wired pubEndpoints system) {node : Node} {msgs : Message} {origin : Option Origin}
    (waits : Waits node ⟨msgs, origin⟩) : Wired pubEndpoints (system.publish node [msgs] origin) where
  conv := wired.conv
  waits other packet member := by
    rw [frontend_publish, List.mem_append] at member
    cases member with
    | inl earlier => exact wired.waits other packet earlier
    | inr fresh =>
        split at fresh
        · rename_i same
          obtain rfl := List.mem_singleton.mp fresh
          exact same ▸ waits
        · cases fresh
  arrives := wired.arrives

theorem Wired.take (wired : Wired pubEndpoints system) {source : Node} {rest : List Packet}
    (wait : ∀ packet ∈ rest, Waits source packet) : Wired pubEndpoints (system.take source rest) where
  conv := wired.conv
  waits other packet member := by
    rw [frontend_take] at member
    split at member
    · rename_i same
      exact same ▸ wait packet member
    · exact wired.waits other packet member
  arrives := wired.arrives

theorem Wired.forward (wired : Wired pubEndpoints system) {source : Node} {packet : Packet}
    (waits : Waits source packet) : Wired pubEndpoints (system.forward pubEndpoints source packet) where
  conv := wired.conv
  waits := wired.waits
  arrives other node packet' member := by
    rw [backend_forward, List.mem_append] at member
    cases member with
    | inl earlier => exact wired.arrives other node packet' earlier
    | inr fresh =>
        split at fresh
        · rename_i both
          obtain ⟨rfl, -, matched⟩ := both
          obtain rfl := List.mem_singleton.mp fresh
          exact waits.arrives (wired.filters node ▸ matched)
        · cases fresh

theorem step_moved (wired : Wired pubEndpoints system)
    (stepped : step pubEndpoints system label = some (after, events)) :
    Moved pubEndpoints system label after events := by
  cases label with
  | chunk side data =>
      cases stepped
      exact .chunk side data _ rfl
  | main =>
      cases stepped
      exact .main _ _ rfl
  | welcome node =>
      simp only [step] at stepped
      split at stepped
      · rename_i linked
        cases stepped
        exact .welcome linked
      · cases stepped
  | forward source =>
      cases queue : system.frontend source with
      | nil => simp only [step, queue, reduceCtorEq] at stepped
      | cons packet rest =>
          simp only [step, queue, Option.some.injEq, Prod.mk.injEq] at stepped
          obtain ⟨rfl, rfl⟩ := stepped
          exact .forward queue (wired.waits source packet (by simp [queue]))
  | deliver source node =>
      cases queue : system.backend source node with
      | nil => simp only [step, queue, reduceCtorEq] at stepped
      | cons packet rest =>
          have arrives := wired.arrives source node
          rw [queue] at arrives
          have left := wired.arrange fun other member => arrives other (List.mem_cons_of_mem packet member)
          simp only [step, queue, Option.some.injEq] at stepped
          cases arrives packet List.mem_cons_self with
          | welcome =>
              rw [receive_welcome] at stepped
              cases stepped
              exact .drops queue rfl
          | main =>
              rw [receive_main] at stepped
              cases stepped
              exact .drops queue rfl
          | chunk =>
              rw [receive_chunk left] at stepped
              cases stepped
              exact .converts queue
          | converted =>
              rw [receive_converted] at stepped
              cases stepped
              exact .broadcasts queue

theorem Moved.wired (wired : Wired pubEndpoints system) (moved : Moved pubEndpoints system label after events) :
    Wired pubEndpoints after := by
  have behind {source : Option Node} {node : Node} {packet : Packet} {rest : List Packet}
      (queue : system.backend source node = packet :: rest) : Wired pubEndpoints (system.arrange source node rest) :=
    wired.arrange fun other member => wired.arrives source node other (by simp [queue, member])
  cases moved with
  | chunk side data msgs same =>
      have recorded : Wired pubEndpoints (system.recordChunk side data) := ⟨wired.conv, wired.waits, wired.arrives⟩
      exact recorded.publish (same ▸ .chunk (system.upcoming side) (ofBytes data))
  | main index msgs same =>
      have turned : Wired pubEndpoints { system with turn := system.turn + 1 } :=
        ⟨wired.conv, wired.waits, wired.arrives⟩
      have waits := Waits.main system.turn
      rw [same] at waits
      exact turned.publish waits
  | @welcome node =>
      apply wired.arrange
      intro packet member
      cases List.mem_append.mp member with
      | inl earlier => exact wired.arrives none node packet earlier
      | inr fresh => exact List.mem_singleton.mp fresh ▸ .welcome node
  | forward queue waits =>
      apply Wired.forward _ waits
      exact wired.take fun other member => wired.waits _ other (by simp [queue, member])
  | drops queue => exact behind queue
  | converts queue => exact (behind queue).publish (.converted _ _)
  | broadcasts queue => exact ⟨(behind queue).conv, (behind queue).waits, (behind queue).arrives⟩

def carries (side : Side) (packet : Packet) : Option Broadcast :=
  if packet.origin.map Origin.side = some side then
    packet.msgs.frames[1]?.map fun payload => ⟨payload, packet.origin⟩
  else none

def carried (side : Side) (queue : List Packet) : List Broadcast := queue.filterMap (carries side)

section Stations
variable (side : Side) (system : InprocStack)

def received : List Broadcast := carried side (system.frontend (.net side))

def toConverter : List Broadcast := carried side (system.backend (some (.net side)) .conv)

def converted : List Broadcast := carried side (system.frontend .conv)

def fromConverter : List Broadcast := carried side (system.backend (some .conv) (.net side.other))

/-- The places a chunk of one side passes through, the last of them first. -/
def flow : List (List Broadcast) :=
  [system.broadcasts side.other, fromConverter side system, converted side system, toConverter side system,
    received side system]

end Stations

/-- The chunks a side has received, as the other side is to broadcast them. -/
def numbered (side : Side) (chunks : List (List Byte)) : List Broadcast :=
  chunks.zipIdx.map fun (data, number) => ⟨ofBytes data, some ⟨side, number⟩⟩

theorem numbered_snoc (side : Side) (chunks : List (List Byte)) (data : List Byte) :
    numbered side (chunks ++ [data]) = numbered side chunks ++ [⟨ofBytes data, some ⟨side, chunks.length⟩⟩] := by
  simp [numbered, List.zipIdx_append]

def entering (side : Side) (system : InprocStack) : Label → List Broadcast
  | .chunk other data => if other = side then [⟨ofBytes data, some (system.upcoming other)⟩] else []
  | _ => []

theorem Moved.numbered (moved : Moved pubEndpoints system label after events) (side : Side) :
    numbered side (after.chunks side) = numbered side (system.chunks side) ++ entering side system label := by
  cases moved with
  | chunk other data =>
      rw [entering]
      split
      · rename_i same
        subst same
        rw [upcoming, ← numbered_snoc]
        simp [publish, recordChunk]
      · rename_i different
        simp [publish, recordChunk, Ne.symm different]
  | main | welcome | forward | drops | converts | broadcasts => exact (List.append_nil _).symm

@[simp] theorem carries_publication (side : Side) (origin : Origin) (topic payload : Str) :
    carries side ⟨.publication topic payload, some origin⟩ =
      if origin.side = side then some ⟨payload, some origin⟩ else none := by
  simp [carries, Message.publication]

theorem carries_of_none {packet : Packet} (plain : packet.origin = none) (side : Side) :
    carries side packet = none := by
  simp [carries, plain]

@[simp] theorem carried_append (side : Side) (first rest : List Packet) :
    carried side (first ++ rest) = carried side first ++ carried side rest :=
  List.filterMap_append

theorem carried_cons (side : Side) (packet : Packet) (rest : List Packet) :
    carried side (packet :: rest) = (carries side packet).toList ++ carried side rest := by
  cases found : carries side packet <;> simp [carried, found]

@[simp] theorem carried_nil (side : Side) : carried side [] = [] := rfl

theorem carried_arrange {source : Option Node} {node : Node} {packet : Packet} {rest : List Packet}
    (queue : system.backend source node = packet :: rest) (plain : packet.origin = none) (side : Side)
    (other : Option Node) (node' : Node) :
    carried side ((system.arrange source node rest).backend other node') =
      carried side (system.backend other node') := by
  rw [backend_arrange]
  split
  · rename_i same
    obtain ⟨rfl, rfl⟩ := same
    rw [queue, carried_cons, carries_of_none plain]
    rfl
  · rfl

theorem publish_moves (origin : Origin) (payload : Str) (side : Side) (system : InprocStack) :
    Chain.Moves (if origin.side = side then [⟨payload, some origin⟩] else []) (flow side system)
      (flow side (system.publish (.net origin.side) [(outward origin payload).msgs] (some origin))) := by
  split
  · rename_i same
    subst same
    let ahead := [system.broadcasts origin.side.other, fromConverter origin.side system,
      converted origin.side system, toConverter origin.side system]
    have moves := Chain.Moves.enters ahead (received origin.side system) ⟨payload, some origin⟩
    simpa [ahead, flow, received, toConverter, converted, fromConverter, outward, carried_cons] using moves
  · rename_i different
    apply Chain.Moves.of_eq
    simp [flow, received, toConverter, converted, fromConverter, Ne.symm different]

theorem forward_moves (wired : Wired pubEndpoints system)
    (listed : pubEndpoint pubEndpoints ∈ pubEndpoints) {source : Node} {packet : Packet} {rest : List Packet}
    (queue : system.frontend source = packet :: rest) (waits : Waits source packet) (side : Side) :
    Chain.Moves [] (flow side system) (flow side ((system.take source rest).forward pubEndpoints source packet)) := by
  cases waits with
  | main turn =>
      apply Chain.Moves.of_eq
      simp [flow, received, toConverter, converted, fromConverter]
  | chunk origin payload =>
      by_cases own : origin.side = side
      · subst own
        have moves := Chain.Moves.advances
          [system.broadcasts origin.side.other, fromConverter origin.side system, converted origin.side system]
          (toConverter origin.side system) ⟨payload, some origin⟩ (carried origin.side rest) []
        simpa [flow, received, toConverter, converted, fromConverter, queue, wired.filters, wired.linked, listed,
          carried_cons, outward, matches_ingress] using moves
      · apply Chain.Moves.of_eq
        simp [flow, received, toConverter, converted, fromConverter, Ne.symm own]
  | converted origin payload =>
      by_cases own : origin.side = side
      · subst own
        have moves := Chain.Moves.advances [system.broadcasts origin.side.other]
          (fromConverter origin.side system) ⟨payload, some origin⟩ (carried origin.side rest)
          [toConverter origin.side system, received origin.side system]
        simpa [flow, received, toConverter, converted, fromConverter, queue, wired.filters, wired.linked, listed,
          carried_cons, inward, matches_egress] using moves
      · apply Chain.Moves.of_eq
        simp [flow, received, toConverter, converted, fromConverter, inward, queue, carried_cons, wired.filters,
          matches_egress, own, Ne.symm own]

theorem convert_moves {origin : Origin} {payload : Str} {rest : List Packet}
    (queue : system.backend (some (.net origin.side)) .conv = outward origin payload :: rest) (side : Side) :
    Chain.Moves [] (flow side system)
      (flow side ((system.arrange (some (.net origin.side)) .conv rest).publish .conv
        [(inward origin payload).msgs] (some origin))) := by
  by_cases own : origin.side = side
  · subst own
    have moves := Chain.Moves.advances
      [system.broadcasts origin.side.other, fromConverter origin.side system] (converted origin.side system)
      ⟨payload, some origin⟩ (carried origin.side rest) [received origin.side system]
    simpa [flow, received, toConverter, converted, fromConverter, queue, carried_cons, inward, outward] using moves
  · apply Chain.Moves.of_eq
    simp [flow, received, toConverter, converted, fromConverter, carried_cons, inward, own, Ne.symm own]

theorem broadcast_moves {origin : Origin} {payload : Str} {rest : List Packet}
    (queue : system.backend (some .conv) (.net origin.side.other) = inward origin payload :: rest) (side : Side) :
    Chain.Moves [] (flow side system)
      (flow side ((system.arrange (some .conv) (.net origin.side.other) rest).recordBroadcast origin.side.other
        ⟨payload, some origin⟩)) := by
  by_cases own : origin.side = side
  · subst own
    have moves := Chain.Moves.advances [] (system.broadcasts origin.side.other) ⟨payload, some origin⟩
      (carried origin.side rest)
      [converted origin.side system, toConverter origin.side system, received origin.side system]
    simpa [flow, received, toConverter, converted, fromConverter, queue, carried_cons, inward] using moves
  · apply Chain.Moves.of_eq
    simp [flow, received, toConverter, converted, fromConverter, Ne.symm own]

/-- What the wiring does to the chunks of one side is a move of a chain of queues. -/
theorem Moved.flow (wired : Wired pubEndpoints system) (listed : pubEndpoint pubEndpoints ∈ pubEndpoints)
    (moved : Moved pubEndpoints system label after events) (side : Side) :
    Chain.Moves (entering side system label) (flow side system) (flow side after) := by
  cases moved with
  | chunk other data msgs same =>
      subst same
      exact publish_moves (system.upcoming other) (ofBytes data) side (system.recordChunk other data)
  | main | welcome =>
      apply Chain.Moves.of_eq
      simp [InprocStack.flow, received, toConverter, converted, fromConverter]
  | forward queue waits => exact forward_moves wired listed queue waits side
  | drops queue plain =>
      apply Chain.Moves.of_eq
      simp only [InprocStack.flow, received, toConverter, converted, fromConverter, carried_arrange queue plain,
        frontend_arrange, broadcasts_arrange]
  | converts queue => exact convert_moves queue side
  | broadcasts queue => exact broadcast_moves queue side

variable {final : InprocStack} {steps : List (Taken InprocStack Label Message)}

theorem run_wired (run : Run (step pubEndpoints) (create pubEndpoints) steps final) : Wired pubEndpoints final := by
  apply run.always (Wired pubEndpoints)
  · exact create_wired pubEndpoints
  · exact fun _ _ _ _ wired stepped => (step_moved wired stepped).wired wired

theorem run_flow (listed : pubEndpoint pubEndpoints ∈ pubEndpoints)
    (run : Run (step pubEndpoints) (create pubEndpoints) steps final) (side : Side) :
    (flow side final).flatten = numbered side (final.chunks side) := by
  induction run with
  | nil => rfl
  | snoc earlier stepped ih =>
      have wired := run_wired earlier
      have moved := step_moved wired stepped
      rw [(moved.flow wired listed side).flatten, ih, moved.numbered]

/-- Without an option `-p` the proxy reaches nobody. -/
theorem run_unlisted (unlisted : pubEndpoint pubEndpoints ∉ pubEndpoints)
    (run : Run (step pubEndpoints) (create pubEndpoints) steps final) :
    (∀ source node, final.backend source node = []) ∧ ∀ side, final.broadcasts side = [] := by
  induction run with
  | nil => exact ⟨fun _ _ => rfl, fun _ => rfl⟩
  | snoc earlier stepped ih =>
      have wired := run_wired earlier
      obtain ⟨empty, silent⟩ := ih
      cases step_moved wired stepped with
      | chunk | main => exact ⟨empty, silent⟩
      | welcome linked => exact absurd ((wired.linked _).mp linked) unlisted
      | forward => exact ⟨fun source node => by simp [wired.linked, unlisted, empty], silent⟩
      | drops queue | converts queue | broadcasts queue => cases (empty _ _).symm.trans queue

theorem mem_numbered {side : Side} {chunks : List (List Byte)} {broadcast : Broadcast} :
    broadcast ∈ numbered side chunks ↔
      ∃ number data, chunks[number]? = some data ∧ broadcast = ⟨ofBytes data, some ⟨side, number⟩⟩ := by
  simp only [numbered, List.mem_map, Prod.exists, List.mem_zipIdx_iff_getElem?]
  constructor
  · intro ⟨data, number, member, same⟩
    exact ⟨number, data, member, same.symm⟩
  · intro ⟨number, data, member, same⟩
    exact ⟨data, number, member, same.symm⟩

theorem payloads_numbered (side : Side) (chunks : List (List Byte)) :
    (numbered side chunks).map Broadcast.payload = chunks.map ofBytes := by
  rw [numbered, List.map_map]
  calc chunks.zipIdx.map (ofBytes ∘ Prod.fst)
      = (chunks.zipIdx.map Prod.fst).map ofBytes := (List.map_map ..).symm
    _ = chunks.map ofBytes := by rw [List.zipIdx_map_fst]

theorem origins_numbered (side : Side) (chunks : List (List Byte)) :
    (numbered side chunks).map Broadcast.origin =
      (List.range' 0 chunks.length).map fun number => some (Origin.mk side number) := by
  rw [numbered, List.map_map]
  calc chunks.zipIdx.map ((fun number => some (Origin.mk side number)) ∘ Prod.snd)
      = (chunks.zipIdx.map Prod.snd).map fun number => some (Origin.mk side number) := (List.map_map ..).symm
    _ = (List.range' 0 chunks.length).map fun number => some (Origin.mk side number) := by
        rw [List.zipIdx_map_snd]

theorem nodup_origins_numbered (side : Side) (chunks : List (List Byte)) :
    ((numbered side chunks).map Broadcast.origin).Nodup := by
  rw [origins_numbered]
  apply List.Nodup.map _ List.nodup_range'
  intro first second same
  cases same
  rfl

theorem broadcasts_begin (run : Run (step pubEndpoints) (create pubEndpoints) steps final) (side : Side) :
    final.broadcasts side <+: numbered side.other (final.chunks side.other) := by
  by_cases listed : pubEndpoint pubEndpoints ∈ pubEndpoints
  · have held := run_flow listed run side.other
    rw [flow, Side.other_other] at held
    exact Chain.prefix_of_flatten held
  · rw [(run_unlisted listed run).2]
    exact List.nil_prefix

theorem origin_of_broadcast (run : Run (step pubEndpoints) (create pubEndpoints) steps final) {side : Side}
    {broadcast : Broadcast} (member : broadcast ∈ final.broadcasts side) :
    ∃ number data, (final.chunks side.other)[number]? = some data ∧
      broadcast = ⟨ofBytes data, some ⟨side.other, number⟩⟩ :=
  mem_numbered.mp ((broadcasts_begin run side).subset member)

/-- Nothing is lost: once no chunk is under way, the other TCP stack has broadcast all of them. -/
theorem broadcasts_of_idle (listed : pubEndpoint pubEndpoints ∈ pubEndpoints)
    (run : Run (step pubEndpoints) (create pubEndpoints) steps final) (side : Side)
    (frontend : ∀ node, final.frontend node = []) (backend : ∀ source node, final.backend source node = []) :
    final.broadcasts side = numbered side.other (final.chunks side.other) := by
  have held := run_flow listed run side.other
  rw [flow, Side.other_other] at held
  apply Chain.eq_of_flatten held
  simp [received, toConverter, converted, fromConverter, frontend, backend]

/-- No message under way is read beyond its frames. -/
theorem backend_inBounds (run : Run (step pubEndpoints) (create pubEndpoints) steps final) {source : Option Node}
    {node : Node} {packet : Packet} (member : packet ∈ final.backend source node) :
    (deliver (stackClass node) .subscriber).InBounds packet.msgs.frames := by
  rw [deliver_inBounds_iff]
  cases (run_wired run).arrives source node packet member with
  | welcome => exact .inr (.inr ⟨rfl, rfl⟩)
  | main turn index =>
      match turn with
      | 0 | 1 | 2 => exact .inl le_rfl
  | chunk | converted => exact .inl le_rfl

/-- Whatever the order of arrivals and deliveries, each TCP stack broadcasts the chunks of the
other one in the order they were received, none of its own and none of them twice. -/
theorem chunks_cross (run : Run (step pubEndpoints) (create pubEndpoints) steps final) :
    (∀ side, (final.broadcasts side).map Broadcast.payload <+: (final.chunks side.other).map ofBytes) ∧
    (∀ side, ∀ broadcast ∈ final.broadcasts side, ∃ number data,
      (final.chunks side.other)[number]? = some data ∧
        broadcast = ⟨ofBytes data, some ⟨side.other, number⟩⟩) ∧
    (∀ side number, some ⟨side, number⟩ ∉ (final.broadcasts side).map Broadcast.origin) ∧
    ((final.broadcasts .netA ++ final.broadcasts .netB).map Broadcast.origin).Nodup := by
  have own {side : Side} {number : ℕ} : some ⟨side, number⟩ ∉ (final.broadcasts side).map Broadcast.origin := by
    intro member
    obtain ⟨broadcast, member, same⟩ := List.mem_map.mp member
    obtain ⟨_, _, _, rfl⟩ := origin_of_broadcast run member
    exact side.other_ne (congrArg Origin.side (Option.some.inj same))
  have distinct (side : Side) : ((final.broadcasts side).map Broadcast.origin).Nodup :=
    ((broadcasts_begin run side).sublist.map Broadcast.origin).nodup (nodup_origins_numbered _ _)
  refine ⟨fun side => ?_, fun _ _ member => origin_of_broadcast run member, fun _ _ => own, ?_⟩
  · rw [← payloads_numbered]
    exact (broadcasts_begin run side).map Broadcast.payload
  · rw [List.map_append]
    apply (distinct .netA).append (distinct .netB)
    intro origin first second
    obtain ⟨broadcast, member, rfl⟩ := List.mem_map.mp second
    obtain ⟨_, _, _, rfl⟩ := origin_of_broadcast run member
    exact own first

def oneEndpoint : List Str := ["inproc://pub".toList]

/-- A chunk goes either way, and a second one of netA is still at the converter. -/
theorem chunks_cross_both : ∃ steps final, Run (step oneEndpoint) (create oneEndpoint) steps final ∧
    (final.chunks .netA).length = 2 ∧ (final.broadcasts .netB).length = 1 ∧
    (final.broadcasts .netA).length = 1 ∧
    (final.broadcasts .netB).map Broadcast.payload <+: (final.chunks .netA).map ofBytes ∧
    ((final.broadcasts .netA ++ final.broadcasts .netB).map Broadcast.origin).Nodup := by
  have computed : (exec (step oneEndpoint) (create oneEndpoint) [.welcome .conv, .chunk .netA [1], .main,
      .chunk .netB [1], .chunk .netA [2], .forward (.net .netA), .forward (.stack 0), .forward (.net .netB),
      .forward (.net .netA), .deliver none .conv, .deliver (some (.net .netB)) .conv,
      .deliver (some (.net .netA)) .conv, .forward .conv, .forward .conv,
      .deliver (some .conv) (.net .netB), .deliver (some .conv) (.net .netA)]).any (fun (_, final) =>
        decide ((final.chunks .netA).length = 2) && decide ((final.broadcasts .netB).length = 1) &&
          decide ((final.broadcasts .netA).length = 1)) = true := by
    decide +kernel
  obtain ⟨steps, final, run, checked⟩ := exists_run_of_exec computed
  simp only [Bool.and_eq_true, decide_eq_true_eq] at checked
  obtain ⟨inOrder, -, -, once⟩ := chunks_cross run
  exact ⟨steps, final, run, checked.1.1, checked.1.2, checked.2, inOrder .netB, once⟩

end InprocStack

end ZmqPlayground
