import Mathlib.Algebra.Order.BigOperators.Group.List
import Mathlib.Algebra.Order.Ring.Nat
import ZmqPlayground.Common.TcpClient
import ZmqPlayground.InprocStack.Arrival

/-! The in-process program with the TCP clients at both of its ends.

What a client writes waits in its connection until the stack receives a piece of it, cut
anywhere. What the stack broadcasts waits in the connections of all its clients in the same
way. The clients have connected before anything comes in, and stay connected.
-/

set_option autoImplicit false

namespace ZmqPlayground

open Library
open Library.Runs

variable {C : Type}

/-- The clients, and the TCP stack that each of them is connected to. -/
structure Clients (C : Type) where
  all : List C
  distinct : all.Nodup
  side : C → Side

def Clients.of (clients : Clients C) (side : Side) : List C :=
  clients.all.filter fun client => clients.side client = side

/-- `uplink` is what a client has written and the stack has still to receive, `downlink` what the stack
has sent and the client has still to receive. -/
structure Tunnel (C : Type) where
  system : InprocStack
  uplink : C → List Byte
  downlink : C → List Byte

namespace Tunnel

inductive Label (C : Type) where
  | writes (client : C) (msg : List Byte) (sent : Sent)
  | recv (client : C) (numOfBytesReceived : ℕ)
  /-- A step of the program, with what `Send` returns for each client where it is a broadcast. -/
  | moves (label : InprocStack.Label) (results : List (C × Sent))
  | hears (client : C) (numOfBytesReceived : ℕ)

inductive Event (C : Type) where
  | wrote (client : C) (data : List Byte)
  | received (client : C) (data : List Byte)
  | heard (client : C) (data : List Byte)
  deriving DecidableEq

def create (pubEndpoints : List Str) : Tunnel C := ⟨.create pubEndpoints, fun _ => [], fun _ => []⟩

/-- What a stack hands to `sendBcast` when it gets a message, and on which side. -/
def handed (node : Node) (packet : Packet) : Option (Side × List Byte) :=
  match (deliver (InprocStack.stackClass node) .subscriber).eval packet.msgs.frames with
  | some (some (.broadcasts payload)) => match node with
      | .net side => some (side, toBytes payload)
      | _ => none
  | _ => none

def broadcast (system : InprocStack) : InprocStack.Label → Option (Side × List Byte)
  | .deliver source node => match system.backend source node with
      | [] => none
      | packet :: _ => handed node packet
  | _ => none

/-- What a call of `Recv` can return: not more than there is, and not more than the buffer holds. -/
def Receives (data : List Byte) (numOfBytesReceived : ℕ) : Prop :=
  0 < numOfBytesReceived ∧ numOfBytesReceived ≤ data.length ∧ numOfBytesReceived ≤ maxPacketSize

instance (data : List Byte) (numOfBytesReceived : ℕ) : Decidable (Receives data numOfBytesReceived) :=
  inferInstanceAs (Decidable (_ ∧ _))

section Step
variable [DecidableEq C]

/-- The loop of `sendBcast`, which is left at the first client that does not take the whole message. -/
def sendBcast (msg : List Byte) : List (C × Sent) → (C → List Byte) → C → List Byte
  | [], downlink => downlink
  | (client, sent) :: rest, downlink =>
      let downlink := Function.update downlink client (downlink client ++ TcpClient.accepted msg sent)
      if sent.numBytesSent < msg.length then downlink else sendBcast msg rest downlink

variable (pubEndpoints : List Str) (clients : Clients C)

def step : Step (Tunnel C) (Label C) (Event C)
  | tunnel, .writes client msg sent =>
      let data := TcpClient.accepted msg sent
      some ({ tunnel with uplink := Function.update tunnel.uplink client (tunnel.uplink client ++ data) },
        [.wrote client data])
  | tunnel, .recv client numOfBytesReceived =>
      if client ∈ clients.all ∧ Receives (tunnel.uplink client) numOfBytesReceived then
        let data := (tunnel.uplink client).take numOfBytesReceived
        let rest := (tunnel.uplink client).drop numOfBytesReceived
        (InprocStack.step pubEndpoints tunnel.system (.chunk (clients.side client) data)).map fun moved =>
          ({ tunnel with system := moved.1, uplink := Function.update tunnel.uplink client rest },
            [.received client data])
      else none
  | tunnel, .moves label results =>
      if label.isChunk then none
      else match broadcast tunnel.system label with
        | none => (InprocStack.step pubEndpoints tunnel.system label).map fun moved =>
            ({ tunnel with system := moved.1 }, [])
        | some (side, msg) =>
            if (results.map Prod.fst).Perm (clients.of side) then
              (InprocStack.step pubEndpoints tunnel.system label).map fun moved =>
                ({ tunnel with system := moved.1, downlink := sendBcast msg results tunnel.downlink }, [])
            else none
  | tunnel, .hears client numOfBytesReceived =>
      if Receives (tunnel.downlink client) numOfBytesReceived then
        let data := (tunnel.downlink client).take numOfBytesReceived
        let rest := (tunnel.downlink client).drop numOfBytesReceived
        some ({ tunnel with downlink := Function.update tunnel.downlink client rest }, [.heard client data])
      else none

/-- Every client takes the whole of what is broadcast. -/
def Whole (tunnel : Tunnel C) : Label C → Prop
  | .moves label results => ∀ sent ∈ broadcast tunnel.system label, ∀ result ∈ results,
      result.2.numBytesSent = sent.2.length
  | _ => True

instance (tunnel : Tunnel C) (label : Label C) : Decidable (Whole tunnel label) :=
  match label with
  | .moves _ _ => inferInstanceAs (Decidable (∀ sent ∈ broadcast _ _, _))
  | .writes _ _ _ | .recv _ _ | .hears _ _ => isTrue trivial

def Label.isWrite : Label C → Bool
  | .writes _ _ _ => true
  | _ => false

def Label.isRecv : Label C → Bool
  | .recv _ _ => true
  | _ => false

def Label.isHeard : Label C → Bool
  | .hears _ _ => true
  | _ => false

/-- The bytes a client has written, as far as its connection has taken them. -/
def wrote (client : C) (events : List (Event C)) : List Byte := events.flatMap fun
  | .wrote other data => if other = client then data else []
  | _ => []

def heard (client : C) (events : List (Event C)) : List Byte := events.flatMap fun
  | .heard other data => if other = client then data else []
  | _ => []

def pieces (side : Side) (events : List (Event C)) : List (C × List Byte) := events.filterMap fun
  | .received client data => if clients.side client = side then some (client, data) else none
  | _ => none

def bytesOf (client : C) (pieces : List (C × List Byte)) : List Byte :=
  pieces.flatMap fun piece => if piece.1 = client then piece.2 else []

section Events
variable {clients : Clients C} (client : C) (side : Side) (first rest : List (Event C))

theorem wrote_append : wrote client (first ++ rest) = wrote client first ++ wrote client rest :=
  List.flatMap_append

theorem heard_append : heard client (first ++ rest) = heard client first ++ heard client rest :=
  List.flatMap_append

omit [DecidableEq C] in
theorem pieces_append : pieces clients side (first ++ rest) = pieces clients side first ++ pieces clients side rest :=
  List.filterMap_append

theorem bytesOf_append (first rest : List (C × List Byte)) :
    bytesOf client (first ++ rest) = bytesOf client first ++ bytesOf client rest :=
  List.flatMap_append

end Events

theorem sendBcast_whole {msg : List Byte} {results : List (C × Sent)}
    (whole : ∀ result ∈ results, result.2.numBytesSent = msg.length)
    (distinct : (results.map Prod.fst).Nodup) (downlink : C → List Byte) (client : C) :
    sendBcast msg results downlink client =
      downlink client ++ if client ∈ results.map Prod.fst then msg else [] := by
  induction results generalizing downlink with
  | nil => exact (List.append_nil _).symm
  | cons result rest ih =>
      obtain ⟨other, sent⟩ := result
      rw [List.forall_mem_cons] at whole
      rw [List.map_cons, List.nodup_cons] at distinct
      have complete : sent.numBytesSent = msg.length := whole.1
      have taken : TcpClient.accepted msg sent = msg := by
        rw [TcpClient.accepted, complete, Int.toNat_natCast, List.take_length]
      rw [sendBcast, complete, if_neg (lt_irrefl _), ih whole.2 distinct.2, taken]
      by_cases same : client = other
      · subst same
        rw [Function.update_self, if_neg distinct.1, List.append_nil, if_pos (by simp)]
      · rw [Function.update_of_ne same]
        simp only [List.map_cons, List.mem_cons, same, false_or]

omit [DecidableEq C] in
theorem receive_broadcasts (node : Node) (packet : Packet) (system : InprocStack) (side : Side) :
    ((system.receive node packet).1.broadcasts side).flatMap (fun broadcast => toBytes broadcast.payload) =
      (system.broadcasts side).flatMap (fun broadcast => toBytes broadcast.payload) ++
        match handed node packet with
        | some (other, msg) => if side = other then msg else []
        | none => [] := by
  rw [InprocStack.receive, handed]
  rcases (deliver (InprocStack.stackClass node) .subscriber).eval packet.msgs.frames with _ | _ | reaction
  · exact (List.append_nil _).symm
  · exact (List.append_nil _).symm
  · cases reaction with
    | logs | converts => exact (List.append_nil _).symm
    | broadcasts payload =>
        cases node with
        | stack | conv => exact (List.append_nil _).symm
        | net other =>
            simp only [InprocStack.react, InprocStack.broadcasts_recordBroadcast, List.flatMap_append]
            congr 1
            by_cases same : side = other
            · rw [if_pos same, if_pos same, List.flatMap_singleton]
            · rw [if_neg same, if_neg same, List.flatMap_nil]

omit [DecidableEq C] in
/-- A step broadcasts what it hands to `sendBcast`, and nothing else. -/
theorem step_broadcasts {pubEndpoints : List Str} {system after : InprocStack} {label : InprocStack.Label}
    {events : List Message} (stepped : InprocStack.step pubEndpoints system label = some (after, events))
    (side : Side) :
    (after.broadcasts side).flatMap (fun broadcast => toBytes broadcast.payload) =
      (system.broadcasts side).flatMap (fun broadcast => toBytes broadcast.payload) ++
        match broadcast system label with
        | some (other, msg) => if side = other then msg else []
        | none => [] := by
  cases label with
  | chunk | main =>
      cases stepped
      exact (List.append_nil _).symm
  | welcome | forward =>
      simp only [InprocStack.step] at stepped
      split at stepped <;> cases stepped
      exact (List.append_nil _).symm
  | deliver source node =>
      simp only [InprocStack.step] at stepped
      cases queue : system.backend source node with
      | nil =>
          rw [queue] at stepped
          cases stepped
      | cons packet rest =>
          simp only [queue, Option.some.injEq] at stepped
          have received := receive_broadcasts node packet (system.arrange source node rest) side
          rw [stepped, InprocStack.broadcasts_arrange] at received
          simp only [broadcast, queue]
          exact received

omit [DecidableEq C] in
theorem step_carrying {pubEndpoints : List Str} {system after : InprocStack} {label : InprocStack.Label}
    {events : List Message} (stepped : InprocStack.step pubEndpoints system label = some (after, events))
    (carrying : InprocStack.Carrying pubEndpoints system.chunks system) :
    InprocStack.Carrying pubEndpoints after.chunks after := by
  have moved := InprocStack.step_moved carrying.wired stepped
  refine ⟨carrying.listed, moved.wired carrying.wired, fun side => ?_⟩
  rw [(moved.flow carrying.wired carrying.listed side).flatten, carrying.held, moved.numbered]

omit [DecidableEq C] in
theorem step_chunks {pubEndpoints : List Str} {system after : InprocStack} {label : InprocStack.Label}
    {events : List Message} (stepped : InprocStack.step pubEndpoints system label = some (after, events))
    (carrying : InprocStack.Carrying pubEndpoints system.chunks system) (closed : label.isChunk = false) :
    after.chunks = system.chunks := by
  have moved := InprocStack.step_moved carrying.wired stepped
  cases moved with
  | chunk => cases closed
  | main | welcome | forward | drops | converts | broadcasts => rfl

omit [DecidableEq C] in
theorem chunk_chunks {pubEndpoints : List Str} {system after : InprocStack} {side : Side} {data : List Byte}
    {events : List Message}
    (stepped : InprocStack.step pubEndpoints system (.chunk side data) = some (after, events)) (other : Side) :
    after.chunks other = system.chunks other ++ if side = other then [data] else [] := by
  cases stepped
  by_cases same : side = other
  · subst same
    simp [InprocStack.publish, InprocStack.recordChunk]
  · simp [InprocStack.publish, InprocStack.recordChunk, same, Ne.symm same]

/-- Where the bytes are: a client's own are written, received and broadcast in order, and those it is to
hear are what its stack has broadcast. -/
structure Conserved (pubEndpoints : List Str) (clients : Clients C) (past : List (Event C)) (tunnel : Tunnel C) :
    Prop where
  carrying : InprocStack.Carrying pubEndpoints tunnel.system.chunks tunnel.system
  received : ∀ side, tunnel.system.chunks side = (pieces clients side past).map Prod.snd
  uplink : ∀ client ∈ clients.all, wrote client past =
    bytesOf client (pieces clients (clients.side client) past) ++ tunnel.uplink client
  downlink : ∀ client ∈ clients.all, heard client past ++ tunnel.downlink client =
    (tunnel.system.broadcasts (clients.side client)).flatMap fun broadcast => toBytes broadcast.payload

section Conserved
variable {pubEndpoints : List Str} {clients : Clients C} {past : List (Event C)} {before after : Tunnel C}
  {events : List (Event C)}

theorem Conserved.writes (conserved : Conserved pubEndpoints clients past before) {client : C}
    {msg : List Byte} {sent : Sent}
    (stepped : step pubEndpoints clients before (.writes client msg sent) = some (after, events)) :
    Conserved pubEndpoints clients (past ++ events) after := by
  cases stepped
  refine ⟨conserved.carrying, fun side => ?_, fun other member => ?_, fun other member => ?_⟩
  · rw [pieces_append, conserved.received]
    exact (congrArg _ (List.append_nil _)).symm
  · rw [wrote_append, conserved.uplink other member, pieces_append, bytesOf_append, List.append_assoc,
      List.append_assoc]
    by_cases same : other = client
    · subst same
      simp [wrote, pieces, bytesOf]
    · simp [wrote, pieces, bytesOf, same, Ne.symm same]
  · rw [heard_append]
    exact (congrArg (· ++ _) (List.append_nil _)).trans (conserved.downlink other member)

theorem Conserved.recv (conserved : Conserved pubEndpoints clients past before) {client : C}
    {numOfBytesReceived : ℕ}
    (stepped : step pubEndpoints clients before (.recv client numOfBytesReceived) = some (after, events)) :
    Conserved pubEndpoints clients (past ++ events) after := by
  simp only [step] at stepped
  split at stepped
  · obtain ⟨⟨system, published⟩, moved, same⟩ := Option.map_eq_some_iff.mp stepped
    cases same
    refine ⟨step_carrying moved conserved.carrying, fun side => ?_, fun other member => ?_,
      fun other member => ?_⟩
    · rw [chunk_chunks moved, pieces_append, List.map_append, conserved.received]
      by_cases here : clients.side client = side
      · simp [pieces, here]
      · simp [pieces, here]
    · rw [wrote_append, conserved.uplink other member, pieces_append, bytesOf_append, List.append_assoc]
      by_cases same : other = client
      · subst same
        simp [wrote, pieces, bytesOf]
      · by_cases here : clients.side client = clients.side other
        · simp [wrote, pieces, bytesOf, same, Ne.symm same, here]
        · simp [wrote, pieces, bytesOf, same, here]
    · rw [heard_append, step_broadcasts moved, ← conserved.downlink other member]
      simp [heard, broadcast]
  · cases stepped

theorem Conserved.moves (conserved : Conserved pubEndpoints clients past before) {label : InprocStack.Label}
    {results : List (C × Sent)} (whole : Whole before (.moves label results))
    (stepped : step pubEndpoints clients before (.moves label results) = some (after, events)) :
    Conserved pubEndpoints clients (past ++ events) after := by
  simp only [step] at stepped
  split at stepped
  · cases stepped
  rename_i open_
  have closed : label.isChunk = false := Bool.eq_false_iff.mpr open_
  split at stepped
  · rename_i quiet
    obtain ⟨⟨system, published⟩, moved, same⟩ := Option.map_eq_some_iff.mp stepped
    cases same
    refine ⟨step_carrying moved conserved.carrying, fun side => ?_, fun other member => ?_,
      fun other member => ?_⟩
    · rw [step_chunks moved conserved.carrying closed, conserved.received, List.append_nil]
    · rw [List.append_nil, conserved.uplink other member]
    · rw [step_broadcasts moved, quiet, List.append_nil, ← conserved.downlink other member, List.append_nil]
  · rename_i side msg handed
    split at stepped
    · rename_i visits
      obtain ⟨⟨system, published⟩, moved, same⟩ := Option.map_eq_some_iff.mp stepped
      cases same
      have distinct : (results.map Prod.fst).Nodup := visits.nodup_iff.mpr (clients.distinct.filter _)
      refine ⟨step_carrying moved conserved.carrying, fun side => ?_, fun other member => ?_,
        fun other member => ?_⟩
      · rw [step_chunks moved conserved.carrying closed, conserved.received, List.append_nil]
      · rw [List.append_nil, conserved.uplink other member]
      · have visited : other ∈ results.map Prod.fst ↔ clients.side other = side := by
          rw [visits.mem_iff, Clients.of, List.mem_filter]
          simp [member]
        rw [step_broadcasts moved, handed, ← conserved.downlink other member]
        simp only [List.append_nil, sendBcast_whole (whole (side, msg) handed) distinct, visited,
          List.append_assoc]
    · cases stepped

theorem Conserved.hears (conserved : Conserved pubEndpoints clients past before) {client : C}
    {numOfBytesReceived : ℕ}
    (stepped : step pubEndpoints clients before (.hears client numOfBytesReceived) = some (after, events)) :
    Conserved pubEndpoints clients (past ++ events) after := by
  simp only [step] at stepped
  split at stepped
  · cases stepped
    refine ⟨conserved.carrying, fun side => ?_, fun other member => ?_, fun other member => ?_⟩
    · rw [pieces_append, conserved.received]
      exact (congrArg _ (List.append_nil _)).symm
    · rw [wrote_append, conserved.uplink other member, pieces_append, bytesOf_append]
      simp [wrote, pieces, bytesOf]
    · rw [heard_append, ← conserved.downlink other member, List.append_assoc]
      by_cases same : other = client
      · subst same
        simp [heard]
      · simp [heard, same, Ne.symm same]
  · cases stepped

variable {steps : List (Taken (Tunnel C) (Label C) (Event C))} {start final : Tunnel C}

theorem run_conserved (run : Run (step pubEndpoints clients) start steps final)
    (conserved : Conserved pubEndpoints clients past start)
    (whole : ∀ taken ∈ steps, Whole taken.before taken.label) :
    Conserved pubEndpoints clients (past ++ trace steps) final := by
  induction run with
  | nil => rwa [trace_nil, List.append_nil]
  | @snoc steps before after label events _ stepped ih =>
      simp only [List.mem_append, List.mem_singleton] at whole
      have now := ih fun taken member => whole taken (.inl member)
      have fully := whole ⟨before, label, events⟩ (.inr rfl)
      rw [trace_append, trace_singleton, ← List.append_assoc]
      cases label with
      | writes => exact now.writes stepped
      | recv => exact now.recv stepped
      | moves => exact now.moves fully stepped
      | hears => exact now.hears stepped

theorem create_conserved (listed : InprocStack.pubEndpoint pubEndpoints ∈ pubEndpoints) (clients : Clients C) :
    Conserved pubEndpoints clients [] (create pubEndpoints) where
  carrying := ⟨listed, InprocStack.create_wired pubEndpoints, fun _ => rfl⟩
  received _ := rfl
  uplink _ _ := rfl
  downlink _ _ := rfl

end Conserved

section Rest
variable {pubEndpoints : List Str} {clients : Clients C}

def unread (clients : Clients C) (buffer : C → List Byte) : ℕ :=
  (clients.all.map fun client => (buffer client).length).sum

theorem unread_drop {buffer : C → List Byte} {client : C} {numOfBytesReceived : ℕ}
    (member : client ∈ clients.all) (receives : Receives (buffer client) numOfBytesReceived) :
    unread clients (Function.update buffer client ((buffer client).drop numOfBytesReceived)) <
      unread clients buffer := by
  obtain ⟨positive, enough, -⟩ := receives
  refine List.sum_lt_sum _ _ (fun other _ => ?_) ⟨client, member, ?_⟩
  · by_cases same : other = client
    · subst same
      rw [Function.update_self, List.length_drop]
      exact Nat.sub_le _ _
    · rw [Function.update_of_ne same]
  · rw [Function.update_self, List.length_drop]
    omega

omit [DecidableEq C] in
theorem exists_receives {buffer : C → List Byte} (some_left : unread clients buffer ≠ 0) :
    ∃ client ∈ clients.all, ∃ numOfBytesReceived, Receives (buffer client) numOfBytesReceived := by
  by_contra none
  push Not at none
  refine some_left (List.sum_eq_zero fun size member => ?_)
  obtain ⟨client, among, rfl⟩ := List.mem_map.mp member
  by_contra occupied
  exact none client among 1 ⟨Nat.one_pos, Nat.pos_of_ne_zero occupied, by decide⟩

omit [DecidableEq C] in
theorem empty_of_unread {buffer : C → List Byte} (finished : unread clients buffer = 0) {client : C}
    (member : client ∈ clients.all) : buffer client = [] :=
  List.eq_nil_of_length_eq_zero (List.sum_eq_zero_iff.mp finished _ (List.mem_map_of_mem member))

omit [DecidableEq C] in
theorem isRecv_quiet {taken : Taken (Tunnel C) (Label C) (Event C)} (reads : taken.label.isRecv = true) :
    taken.label.isWrite = false ∧ Whole taken.before taken.label := by
  cases label : taken.label with
  | recv => exact ⟨rfl, trivial⟩
  | writes | moves | hears =>
      rw [label] at reads
      cases reads

omit [DecidableEq C] in
theorem isHeard_quiet {taken : Taken (Tunnel C) (Label C) (Event C)} (hears : taken.label.isHeard = true) :
    taken.label.isWrite = false ∧ Whole taken.before taken.label := by
  cases label : taken.label with
  | hears => exact ⟨rfl, trivial⟩
  | writes | moves | recv =>
      rw [label] at hears
      cases hears

theorem exists_received (pubEndpoints : List Str) (clients : Clients C) (start : Tunnel C) :
    ∃ steps final, Run (step pubEndpoints clients) start steps final ∧
      (∀ taken ∈ steps, taken.label.isRecv = true) ∧ ∀ client ∈ clients.all, final.uplink client = [] := by
  let draining : Draining (step pubEndpoints clients) (fun label => label.isRecv = true)
      (fun _ => Label.isRecv) :=
    { holds := fun _ => True
      left := fun tunnel => unread clients tunnel.uplink
      pays := by
        rintro before (_ | ⟨client, numOfBytesReceived⟩ | _ | _) after events - reads stepped
        · cases reads
        · simp only [step] at stepped
          split at stepped
          · rename_i may
            cases stepped
            exact ⟨trivial, unread_drop may.1 may.2⟩
          · cases stepped
        · cases reads
        · cases reads }
  have moves : ∀ tunnel, draining.holds tunnel → draining.left tunnel ≠ 0 → ∃ label after events,
      label.isRecv = true ∧ label.isRecv = true ∧
        step pubEndpoints clients tunnel label = some (after, events) := by
    intro tunnel _ some_left
    obtain ⟨client, member, numOfBytesReceived, receives⟩ := exists_receives some_left
    refine ⟨.recv client numOfBytesReceived, ?_⟩
    simp only [step, if_pos (And.intro member receives), InprocStack.step, Option.map_some]
    exact ⟨_, _, rfl, rfl, rfl⟩
  have initially : draining.holds start := trivial
  obtain ⟨steps, final, run, reads, -, finished, -⟩ := draining.exists_done initially moves
  exact ⟨steps, final, run, reads, fun client member => empty_of_unread finished member⟩

theorem exists_heard (pubEndpoints : List Str) (clients : Clients C) (start : Tunnel C) :
    ∃ steps final, Run (step pubEndpoints clients) start steps final ∧
      (∀ taken ∈ steps, taken.label.isHeard = true) ∧ final.system = start.system ∧
      final.uplink = start.uplink ∧ ∀ client ∈ clients.all, final.downlink client = [] := by
  let draining : Draining (step pubEndpoints clients)
      (fun label => ∃ client ∈ clients.all, ∃ numOfBytesReceived, label = .hears client numOfBytesReceived)
      (fun _ => Label.isHeard) :=
    { holds := fun tunnel => tunnel.system = start.system ∧ tunnel.uplink = start.uplink
      left := fun tunnel => unread clients tunnel.downlink
      pays := by
        rintro before _ after events same ⟨client, member, numOfBytesReceived, rfl⟩ stepped
        simp only [step] at stepped
        split at stepped
        · rename_i may
          cases stepped
          exact ⟨same, unread_drop member may⟩
        · cases stepped }
  have moves : ∀ tunnel, draining.holds tunnel → draining.left tunnel ≠ 0 → ∃ label after events,
      (∃ client ∈ clients.all, ∃ numOfBytesReceived, label = .hears client numOfBytesReceived) ∧
        label.isHeard = true ∧ step pubEndpoints clients tunnel label = some (after, events) := by
    intro tunnel _ some_left
    obtain ⟨client, member, numOfBytesReceived, receives⟩ := exists_receives some_left
    refine ⟨.hears client numOfBytesReceived, ?_⟩
    simp only [step, if_pos receives]
    exact ⟨_, _, ⟨client, member, _, rfl⟩, rfl, rfl⟩
  have initially : draining.holds start := ⟨rfl, rfl⟩
  obtain ⟨steps, final, run, hears, same, finished, -⟩ := draining.exists_done initially moves
  exact ⟨steps, final, run, hears, same.1, same.2, fun client member => empty_of_unread finished member⟩

/-- What the program can do, it can do with every client taking the whole of its broadcasts. -/
theorem exists_whole (clients : Clients C) {start last : InprocStack}
    {steps : List (Taken InprocStack InprocStack.Label Message)}
    (run : Run (InprocStack.step pubEndpoints) start steps last)
    (closed : ∀ taken ∈ steps, taken.label.isChunk = false) (tunnel : Tunnel C) (here : tunnel.system = start) :
    ∃ moves final, Run (step pubEndpoints clients) tunnel moves final ∧
      (∀ taken ∈ moves, ∃ label results, taken.label = .moves label results ∧
        Whole taken.before taken.label) ∧
      final.system = last ∧ final.uplink = tunnel.uplink := by
  induction run with
  | nil => exact ⟨[], tunnel, .nil, by simp, here, rfl⟩
  | @snoc steps before after label events _ stepped ih =>
      simp only [List.mem_append, List.mem_singleton] at closed
      obtain ⟨moves, middle, run, whole, rfl, same⟩ := ih fun taken member => closed taken (.inl member)
      have inner : label.isChunk = false := closed ⟨_, label, events⟩ (.inr rfl)
      cases handed : broadcast middle.system label with
      | none =>
          have moved : step pubEndpoints clients middle (.moves label []) =
              some ({ middle with system := after }, []) := by
            simp only [step, inner, handed, stepped]
            rfl
          refine ⟨_, _, run.snoc moved, ?_, rfl, same⟩
          simp only [List.mem_append, List.mem_singleton]
          rintro taken (earlier | rfl)
          · exact whole taken earlier
          · exact ⟨label, [], rfl, fun _ _ => by simp⟩
      | some sent =>
          obtain ⟨side, msg⟩ := sent
          let results : List (C × Sent) := (clients.of side).map fun client => (client, ⟨msg.length, 0⟩)
          have visits : (results.map Prod.fst).Perm (clients.of side) := by
            simp [results, Function.comp_def]
          have moved : step pubEndpoints clients middle (.moves label results) =
              some ({ middle with system := after, downlink := sendBcast msg results middle.downlink }, []) := by
            simp only [step, inner, handed, stepped, if_pos visits]
            rfl
          refine ⟨_, _, run.snoc moved, ?_, rfl, same⟩
          simp only [List.mem_append, List.mem_singleton]
          rintro taken (earlier | rfl)
          · exact whole taken earlier
          · refine ⟨label, results, rfl, fun sent told result member => ?_⟩
            cases handed.symm.trans told
            obtain ⟨client, _, rfl⟩ := List.mem_map.mp member
            rfl

variable {steps : List (Taken (Tunnel C) (Label C) (Event C))} {start final : Tunnel C}

theorem run_unwritten (run : Run (step pubEndpoints clients) start steps final)
    (quiet : ∀ taken ∈ steps, taken.label.isWrite = false) (client : C) : wrote client (trace steps) = [] := by
  induction run with
  | nil => rfl
  | @snoc steps before after label events _ stepped ih =>
      simp only [List.mem_append, List.mem_singleton] at quiet
      have unwritten := quiet ⟨before, label, events⟩ (.inr rfl)
      rw [trace_append, trace_singleton, wrote_append, ih fun taken member => quiet taken (.inl member),
        List.nil_append]
      cases label with
      | writes => cases unwritten
      | recv | hears =>
          simp only [step] at stepped
          split at stepped <;> cases stepped
          rfl
      | moves label results =>
          simp only [step] at stepped
          repeat' split at stepped
          all_goals first
            | cases stepped
            | obtain ⟨_, _, same⟩ := Option.map_eq_some_iff.mp stepped
              cases same
              rfl

omit [DecidableEq C] in
theorem bytes_numbered (side : Side) (chunks : List (List Byte)) :
    (InprocStack.numbered side chunks).flatMap (fun broadcast => toBytes broadcast.payload) = chunks.flatten := by
  have payloads := congrArg (List.map toBytes) (InprocStack.payloads_numbered side chunks)
  have same : toBytes ∘ ofBytes = id := funext toBytes_ofBytes
  rw [List.map_map, List.map_map, same, List.map_id] at payloads
  rw [List.flatMap_def]
  exact congrArg List.flatten payloads

theorem Conserved.begins {past : List (Event C)} {tunnel : Tunnel C}
    (conserved : Conserved pubEndpoints clients past tunnel) {client : C} (member : client ∈ clients.all) :
    heard client past <+: (pieces clients (clients.side client).other past).flatMap Prod.snd := by
  have begun : tunnel.system.broadcasts (clients.side client) <+:
      InprocStack.numbered (clients.side client).other (tunnel.system.chunks (clients.side client).other) := by
    have held := conserved.carrying.held (clients.side client).other
    rw [InprocStack.flow, Side.other_other] at held
    exact Chain.prefix_of_flatten held
  have bytes := begun.flatMap fun broadcast => toBytes broadcast.payload
  rw [bytes_numbered, conserved.received, ← conserved.downlink client member, ← List.flatMap_def] at bytes
  exact (List.prefix_append _ _).trans bytes

theorem Conserved.complete {past : List (Event C)} {tunnel : Tunnel C}
    (conserved : Conserved pubEndpoints clients past tunnel) (finished : tunnel.system.left = 0) {client : C}
    (member : client ∈ clients.all) (read : tunnel.downlink client = []) :
    heard client past = (pieces clients (clients.side client).other past).flatMap Prod.snd := by
  have all := conserved.downlink client member
  rwa [read, List.append_nil, conserved.carrying.broadcasts finished, bytes_numbered, conserved.received,
    ← List.flatMap_def] at all

end Rest

end Step

def sampleClients : Clients ℕ where
  all := [0, 1, 2]
  distinct := by decide
  side client := if client < 2 then .netA else .netB

end Tunnel

end ZmqPlayground
