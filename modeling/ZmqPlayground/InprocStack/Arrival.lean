import ZmqPlayground.InprocStack.Flow
import ZmqPlayground.Library.Draining

/-! The chunks reach the other side, whatever comes in and is published meanwhile.

A chunk moves four times between its reception and its broadcast. The queues it waits in hold
nothing but chunks, so that the publications of the loop of `main` are never ahead of it.
A broadcast is one step: `sendBcast` is taken to return.
-/

set_option autoImplicit false

namespace ZmqPlayground

open Library
open Library.Runs

namespace InprocStack

/-- A move of a chunk: to the converter, through it, and on to the other TCP stack. -/
def Label.movesChunk : Label → Bool
  | .forward (.net _) | .forward .conv => true
  | .deliver (some (.net _)) .conv | .deliver (some .conv) (.net _) => true
  | .forward (.stack _) | .deliver _ _ | .chunk _ _ | .main | .welcome _ => false

def Label.isChunk : Label → Bool
  | .chunk _ _ => true
  | .main | .welcome _ | .forward _ | .deliver _ _ => false

theorem closed_of_movesChunk {label : Label} (moves : label.movesChunk = true) : label.isChunk = false := by
  cases label with
  | chunk => cases moves
  | main | welcome | forward | deliver => rfl

/-- The moves left to the chunks that have come in on one side, except in the converter's own queue. -/
def movesLeft (system : InprocStack) (side : Side) : ℕ :=
  4 * (system.frontend (.net side)).length + 3 * (system.backend (some (.net side)) .conv).length +
    (system.backend (some .conv) (.net side)).length

def incoming (system : InprocStack) : ℕ := (system.chunks .netA).length + (system.chunks .netB).length

def left (system : InprocStack) : ℕ :=
  system.movesLeft .netA + system.movesLeft .netB + 2 * (system.frontend .conv).length

section Left
variable {pubEndpoints : List Str} (system : InprocStack)

theorem left_publish_net (side : Side) (msgs : Message) (origin : Option Origin) :
    (system.publish (.net side) [msgs] origin).left = system.left + 4 := by
  cases side <;> simp [left, movesLeft] <;> omega

theorem left_publish_conv (msgs : Message) (origin : Option Origin) :
    (system.publish .conv [msgs] origin).left = system.left + 2 := by
  simp only [left, movesLeft, frontend_publish, backend_publish, reduceCtorEq, if_false, if_true,
    List.append_nil, List.length_append, List.map_cons, List.map_nil, List.length_singleton]
  omega

theorem left_publish_stack (index : Fin 4) (msgs : Message) (origin : Option Origin) :
    (system.publish (.stack index) [msgs] origin).left = system.left := by
  simp only [left, movesLeft, frontend_publish, backend_publish, reduceCtorEq, if_false, List.append_nil]

theorem left_arrange_conv {side : Side} {packet : Packet} {rest : List Packet}
    (queue : system.backend (some (.net side)) .conv = packet :: rest) :
    (system.arrange (some (.net side)) .conv rest).left + 3 = system.left := by
  cases side <;> simp [left, movesLeft, queue] <;> omega

theorem left_arrange_net {side : Side} {packet : Packet} {rest : List Packet}
    (queue : system.backend (some .conv) (.net side) = packet :: rest) :
    (system.arrange (some .conv) (.net side) rest).left + 1 = system.left := by
  cases side <;> simp [left, movesLeft, queue] <;> omega

theorem left_arrange_other {source : Option Node}
    (other : source = none ∨ ∃ index, source = some (.stack index)) (node : Node) (queue : List Packet) :
    (system.arrange source node queue).left = system.left := by
  -- The queues of the welcome messages and of the base stacks hold no chunks.
  rcases other with rfl | ⟨index, rfl⟩
  all_goals simp [left, movesLeft]

theorem left_forward (wired : Wired pubEndpoints system) (listed : pubEndpoint pubEndpoints ∈ pubEndpoints)
    {source : Node} {packet : Packet} {rest : List Packet} (queue : system.frontend source = packet :: rest)
    (waits : Waits source packet) :
    ((system.take source rest).forward pubEndpoints source packet).left +
      (Label.forward source).movesChunk.toNat = system.left := by
  -- A chunk that the proxy forwards goes on to one subscriber.
  cases waits with
  | main turn => simp [left, movesLeft, Label.movesChunk]
  | chunk origin payload =>
      have matched (node : Node) : Matches (system.socket pubEndpoints node).filters
          (outward origin payload).msgs.first ↔ node = .conv := by
        rw [wired.filters]
        exact matches_ingress origin.side node
      have shorter := congrArg List.length queue
      rw [List.length_cons] at shorter
      cases side : origin.side <;> rw [side] at shorter
      all_goals
        simp [left, movesLeft, Label.movesChunk, wired.linked, listed, matched]
        omega
  | converted origin payload =>
      have matched (node : Node) : Matches (system.socket pubEndpoints node).filters
          (inward origin payload).msgs.first ↔ node = .net origin.side.other := by
        rw [wired.filters]
        exact matches_egress origin.side.other node
      have shorter := congrArg List.length queue
      rw [List.length_cons] at shorter
      cases side : origin.side
      all_goals
        simp [left, movesLeft, Label.movesChunk, wired.linked, listed, matched, side, Side.other]
        omega

end Left

variable {pubEndpoints : List Str} {system after : InprocStack} {label : Label} {events : List Message}

/-- A chunk that comes in has four moves to make, and each of them is one less. -/
theorem Moved.left (wired : Wired pubEndpoints system) (listed : pubEndpoint pubEndpoints ∈ pubEndpoints)
    (moved : Moved pubEndpoints system label after events) :
    after.left + label.movesChunk.toNat = system.left + 4 * label.isChunk.toNat := by
  cases moved with
  | chunk side data msgs => exact left_publish_net (system.recordChunk side data) side msgs _
  | main index msgs =>
      exact left_publish_stack { system with turn := system.turn + 1 } index msgs none
  | welcome linked => exact left_arrange_other system (.inl rfl) _ _
  | forward queue waits => exact left_forward system wired listed queue waits
  | @drops source node packet rest queue plain =>
      have arrives := wired.arrives source node packet (by simp [queue])
      cases arrives with
      | welcome => exact left_arrange_other system (.inl rfl) node rest
      | main turn index =>
          exact left_arrange_other system (.inr ⟨_, rfl⟩) (.stack index) rest
      | chunk | converted => cases plain
  | @converts origin payload rest queue =>
      have shorter := left_arrange_conv system queue
      rw [left_publish_conv]
      simp only [Label.movesChunk, Label.isChunk, Bool.toNat_true, Bool.toNat_false]
      omega
  | @broadcasts origin payload rest queue => exact left_arrange_net system queue

theorem Moved.incoming (moved : Moved pubEndpoints system label after events) :
    after.incoming = system.incoming + label.isChunk.toNat := by
  cases moved with
  | chunk side =>
      cases side <;> simp [InprocStack.incoming, publish, recordChunk, Label.isChunk] <;> omega
  | main | welcome | forward | drops | converts | broadcasts => rfl

/-- What is left of given chunks: they are in the queues of their side, or have been broadcast. -/
structure Carrying (pubEndpoints : List Str) (chunks : Side → List (List Byte)) (system : InprocStack) :
    Prop where
  listed : pubEndpoint pubEndpoints ∈ pubEndpoints
  wired : Wired pubEndpoints system
  held : ∀ side, (flow side system).flatten = numbered side (chunks side)

def draining (pubEndpoints : List Str) (chunks : Side → List (List Byte)) :
    Draining (step pubEndpoints) (fun label => label.isChunk = false) (fun _ => Label.movesChunk) where
  holds := Carrying pubEndpoints chunks
  left := left
  pays before label after events carrying closed stepped := by
    have moved := step_moved carrying.wired stepped
    have paid := moved.left carrying.wired carrying.listed
    rw [closed, Bool.toNat_false] at paid
    refine ⟨⟨carrying.listed, moved.wired carrying.wired, fun side => ?_⟩, paid.le⟩
    have entering : entering side before label = [] := by
      cases label <;> first | rfl | cases closed
    rw [(moved.flow carrying.wired carrying.listed side).flatten, entering, List.append_nil]
    exact carrying.held side

theorem exists_head {queue : List Packet} (some_left : queue.length ≠ 0) :
    ∃ packet rest, queue = packet :: rest :=
  List.exists_cons_of_length_pos (Nat.pos_of_ne_zero some_left)

theorem exists_move (unfinished : system.left ≠ 0) :
    ∃ label after events, label.isChunk = false ∧ label.movesChunk = true ∧
      step pubEndpoints system label = some (after, events) := by
  have somewhere : system.movesLeft .netA ≠ 0 ∨ system.movesLeft .netB ≠ 0 ∨
      (system.frontend .conv).length ≠ 0 := by
    unfold left at unfinished
    omega
  have forwards {source : Node} (own : (Label.forward source).movesChunk = true)
      (waiting : (system.frontend source).length ≠ 0) :
      ∃ label after events, label.isChunk = false ∧ label.movesChunk = true ∧
        step pubEndpoints system label = some (after, events) := by
    obtain ⟨packet, rest, queue⟩ := exists_head waiting
    exact ⟨.forward source, _, _, rfl, own, by simp only [step, queue]; rfl⟩
  have delivers {source : Option Node} {node : Node} (own : (Label.deliver source node).movesChunk = true)
      (waiting : (system.backend source node).length ≠ 0) :
      ∃ label after events, label.isChunk = false ∧ label.movesChunk = true ∧
        step pubEndpoints system label = some (after, events) := by
    obtain ⟨packet, rest, queue⟩ := exists_head waiting
    exact ⟨.deliver source node, _, _, rfl, own, by simp only [step, queue]; rfl⟩
  have onOneSide {side : Side} (some_left : system.movesLeft side ≠ 0) :
      ∃ label after events, label.isChunk = false ∧ label.movesChunk = true ∧
        step pubEndpoints system label = some (after, events) := by
    unfold movesLeft at some_left
    by_cases received : (system.frontend (.net side)).length = 0
    · by_cases outward : (system.backend (some (.net side)) .conv).length = 0
      · exact delivers rfl fun inward => some_left (by rw [received, outward, inward])
      · exact delivers rfl outward
    · exact forwards rfl received
  rcases somewhere with netA | netB | conv
  · exact onOneSide netA
  · exact onOneSide netB
  · exact forwards rfl conv

theorem carried_of_empty {queue : List Packet} (empty : queue.length = 0) (side : Side) :
    carried side queue = [] := by
  rw [List.eq_nil_of_length_eq_zero empty, carried_nil]

theorem Carrying.broadcasts {chunks : Side → List (List Byte)}
    (carrying : Carrying pubEndpoints chunks system) (finished : system.left = 0) (side : Side) :
    system.broadcasts side = numbered side.other (chunks side.other) := by
  have here : system.movesLeft side.other = 0 ∧ system.movesLeft side = 0 ∧
      (system.frontend .conv).length = 0 := by
    unfold left at finished
    cases side <;> simp only [Side.other] <;> omega
  unfold movesLeft at here
  have held := carrying.held side.other
  rw [flow, Side.other_other] at held
  apply Chain.eq_of_flatten held
  simp only [received, toConverter, converted, fromConverter, Side.other_other]
  rw [carried_of_empty (by omega), carried_of_empty (by omega), carried_of_empty (by omega),
    carried_of_empty (by omega)]
  simp

variable {middle final : InprocStack} {steps more : List (Taken InprocStack Label Message)}

theorem run_left (listed : pubEndpoint pubEndpoints ∈ pubEndpoints)
    (run : Run (step pubEndpoints) (create pubEndpoints) steps final) :
    steps.countP (fun taken => taken.label.movesChunk) + final.left = 4 * final.incoming := by
  induction run with
  | nil => rfl
  | @snoc steps before after label events earlier stepped ih =>
      have moved := step_moved (run_wired earlier) stepped
      have paid := moved.left (run_wired earlier) listed
      rw [moved.incoming, List.countP_append, List.countP_singleton]
      cases moving : label.movesChunk <;> simp [moving] at paid ⊢ <;> omega

theorem run_incoming (run : Run (step pubEndpoints) (create pubEndpoints) steps middle)
    (further : Run (step pubEndpoints) middle more final)
    (moving : ∀ taken ∈ more, taken.label.movesChunk = true) : final.incoming = middle.incoming := by
  induction further with
  | nil => rfl
  | @snoc more before after label events between stepped ih =>
      simp only [List.mem_append, List.mem_singleton] at moving
      have moved := step_moved (run_wired (run.append between)) stepped
      rw [moved.incoming, closed_of_movesChunk (moving _ (.inr rfl)), ih fun taken member => moving taken (.inl member)]
      rfl

end InprocStack

end ZmqPlayground
