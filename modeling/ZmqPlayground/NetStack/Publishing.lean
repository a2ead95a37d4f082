import ZmqPlayground.Common.TcpClient
import ZmqPlayground.Library.Streams
import ZmqPlayground.NetStack.Clients

/-! What the TCP stack publishes of the bytes a connection brings.

Each result of `Recv` is published by itself, on every topic of the list. Nothing marks
where a message ends in the stream, so a message comes through as it was written
only if the results end where the messages do.
-/

set_option autoImplicit false

namespace ZmqPlayground

open Library
open Library.Runs
open Library.Streams

namespace NetStack

def payload (topic : Str) (msgs : Message) : Option Str :=
  if msgs.first = topic then msgs.frames[1]? else none

def Event.payloads (topic : Str) (connection : ℕ) : Event → List Str
  | .publishes _ (some (.connection id)) msgs =>
      if id = connection then msgs.filterMap (payload topic) else []
  | _ => []

def payloads (topic : Str) (connection : ℕ) (events : List Event) : List Str :=
  events.flatMap (Event.payloads topic connection)

def Event.chunks (connection : ℕ) : Event → List (List Byte)
  | .server (.recv _ (some (.connection id)) _ data) => if id = connection ∧ data ≠ [] then [data] else []
  | _ => []

def chunks (connection : ℕ) (events : List Event) : List (List Byte) :=
  events.flatMap (Event.chunks connection)

/-- A topic that is listed more than once gets each payload as often. -/
def repeated (pubTopics : List Str) (topic : Str) (chunk : List Byte) : List Str :=
  List.replicate (pubTopics.count topic) (ofBytes chunk)

theorem payload_publication (topic first msg : Str) :
    payload topic (.publication first msg) = if first = topic then some msg else none :=
  rfl

theorem payloads_onReceiveClientData (pubTopics : List Str) (topic : Str) (data : List Byte) :
    (onReceiveClientData pubTopics data).filterMap (payload topic) = repeated pubTopics topic data := by
  unfold onReceiveClientData ZmqStack.publish repeated
  induction pubTopics with
  | nil => rfl
  | cons first rest ih =>
      rw [List.map_cons, List.count_cons]
      by_cases own : first = topic
      · rw [List.filterMap_cons_some ((payload_publication _ _ _).trans (if_pos own)), ih]
        simp [own, List.replicate_succ]
      · rw [List.filterMap_cons_none ((payload_publication _ _ _).trans (if_neg own)), ih]
        simp [own]

/-- What has been received of a connection and is still to be published. -/
def upcoming (connection : ℕ) (server : TcpServer) (task : TcpServer.Task) (body : Body) : List (List Byte) :=
  match task.pc, body with
  | .publish _ (.clientMsg client msgSize), _ =>
      if server.kernel.object client = some (.connection connection) then [task.msg.take msgSize] else []
  | _, .publish client data =>
      if server.kernel.object client = some (.connection connection) then [data] else []
  | _, _ => []

section Moves
open TcpServer
variable {server after : TcpServer} {task next : Task} {label : TcpServer.Label}
  {events : List TcpServer.Event} {body : Body}

theorem Moved.upcoming (moved : Moved server task.msg task.pc label after next events)
    (inside : body = .done ∨ ∃ pass, task.pc = .callback pass) (returning : label = .returns → body = .done)
    (connection : ℕ) :
    NetStack.upcoming connection after next (body.enter events) =
      NetStack.upcoming connection server task body ++ chunks connection (events.map .server) := by
  obtain ⟨pc, msg⟩ := task
  have done : (∀ pass, pc ≠ .callback pass) → body = .done :=
    fun elsewhere => inside.resolve_right fun ⟨pass, here⟩ => elsewhere pass here
  cases moved with
  | exits | selects | retries | reports | ends | skips | finds | misses | acceptFails | accepts | deletes |
      emplaces | watches =>
      obtain rfl := done nofun
      rfl
  | @recvFails pass | @recvCloses pass =>
      obtain rfl := done nofun
      -- Without data there is nothing to publish.
      cases object : server.kernel.object pass.fd with
      | none => rfl
      | some what => cases what <;> simp [NetStack.upcoming, chunks, Event.chunks, Body.enter]
  | @receives pass data nonempty =>
      obtain rfl := done nofun
      cases object : server.kernel.object pass.fd with
      | none => simp [NetStack.upcoming, chunks, Event.chunks, object]
      | some what =>
          cases what with
          | listener | other => simp [NetStack.upcoming, chunks, Event.chunks, object]
          | connection id => simp [NetStack.upcoming, chunks, Event.chunks, object, nonempty]
  | @publishes pass notice =>
      obtain rfl := done nofun
      cases notice <;> simp [NetStack.upcoming, chunks, Event.chunks, Body.enter, Body.begin, Notice.callback,
        onClientConnect, onClientDisconnect]
  | returns =>
      obtain rfl := returning rfl
      rfl

end Moves

theorem upcoming_congr {connection : ℕ} {server after : TcpServer} (task : TcpServer.Task) (body : Body)
    (same : ∀ fd, after.kernel.object fd = some (.connection connection) ↔
      server.kernel.object fd = some (.connection connection)) :
    upcoming connection after task body = upcoming connection server task body := by
  unfold upcoming
  split <;> simp only [same]

section Step
variable {before after : NetStack} {label : Label} {events : List Event}

theorem Mirrored.inside (mirrored : Mirrored before) :
    before.body = .done ∨ ∃ pass, before.server.current.pc = .callback pass := by
  cases mirrored with
  | running _ _ inside _ => exact inside
  | finished _ _ done _ _ => exact .inl done

theorem Mirrored.done (mirrored : Mirrored before)
    (away : before.server.current.pc = .loop ∨ before.server.current.pc = .exited) :
    before.body = .done := by
  apply mirrored.inside.resolve_right
  rintro ⟨pass, here⟩
  rw [here] at away
  rcases away with here | here <;> cases here

theorem upcoming_done {connection : ℕ} {server : TcpServer} {task : TcpServer.Task}
    (away : task.pc = .loop ∨ task.pc = .exited) : upcoming connection server task .done = [] := by
  unfold upcoming
  rcases away with here | here <;> rw [here]

theorem Mirrored.constructing (mirrored : Mirrored before) (starts : before.stage = .constructing) :
    before.server.task = none := by
  cases mirrored with
  | running _ idle _ _ => exact idle starts
  | finished _ idle _ _ _ => exact idle

theorem server_upcoming {server : System} {called : TcpServer.Label} {stage : Stage}
    {emitted : List TcpServer.Event} (mirrored : Mirrored before)
    (allowed : before.stage.next before.body called = some stage)
    (moved : System.step before.server called = some (server, emitted)) (connection : ℕ) :
    upcoming connection server.server server.current (before.body.enter emitted) =
      upcoming connection before.server.server before.server.current before.body ++
        chunks connection (emitted.map .server) := by
  cases System.step_changed moved with
  | moves running moved =>
      have inside := mirrored.inside
      rw [System.current_of_task running] at inside ⊢
      exact Moved.upcoming moved inside (Stage.next_of_moved moved allowed).2 connection
  | @calls caller call =>
      rw [(Stage.next_of_call allowed before.server.server).2]
      exact (List.append_nil _).symm
  | @starts calls msg ret unused valid success none =>
      have away : before.server.current.pc = .loop := by rw [System.current, none, Option.getD_none]
      rw [mirrored.done (.inl away), upcoming_done (.inl away)]
      exact upcoming_done (.inl rfl)
  | terminates busy =>
      simp only [Stage.next, Option.ite_none_right_eq_some] at allowed
      exact absurd (mirrored.constructing allowed.1) busy
  | startFails =>
      simp only [Stage.next, Option.ite_none_right_eq_some] at allowed
      have none := mirrored.constructing allowed.1
      have away : before.server.current.pc = .loop := by rw [System.current, none, Option.getD_none]
      rw [mirrored.done (.inl away), upcoming_done (.inl away)]
      exact upcoming_done (.inl away)
  | stops => exact (List.append_nil _).symm
  | finishes stopped joined =>
      have away : before.server.current.pc = .loop ∨ before.server.current.pc = .exited := by
        unfold System.current
        cases running : before.server.task with
        | none => exact .inl rfl
        | some task => exact .inr (joined task running)
      rw [mirrored.done away, upcoming_done away]
      exact upcoming_done (.inl rfl)
  | opens unused =>
      refine (upcoming_congr _ _ ?_).trans (List.append_nil _).symm
      exact fun fd => (Kernel.Others.opens (Kernel.not_open unused)).connection_iff fd connection
  | closes belongs =>
      refine (upcoming_congr _ _ ?_).trans (List.append_nil _).symm
      exact fun fd => (Kernel.Others.closes belongs).connection_iff fd connection

/-- Everything received is published or is about to be. -/
structure Relayed (pubTopics : List Str) (topic : Str) (connection : ℕ) (past : List Event)
    (stack : NetStack) : Prop where
  mirrored : Mirrored stack
  listed : stack.pubTopics = pubTopics
  law : payloads topic connection past ++
      (upcoming connection stack.server.server stack.server.current stack.body).flatMap (repeated pubTopics topic) =
    (chunks connection past).flatMap (repeated pubTopics topic)

theorem payloads_server (topic : Str) (connection : ℕ) (events : List TcpServer.Event) :
    payloads topic connection (events.map .server) = [] := by
  unfold payloads
  rw [List.flatMap_eq_nil_iff]
  intro event member
  obtain ⟨_, -, rfl⟩ := List.mem_map.mp member
  rfl

theorem payloads_append (topic : Str) (connection : ℕ) (first rest : List Event) :
    payloads topic connection (first ++ rest) = payloads topic connection first ++ payloads topic connection rest :=
  List.flatMap_append

theorem chunks_append (connection : ℕ) (first rest : List Event) :
    chunks connection (first ++ rest) = chunks connection first ++ chunks connection rest :=
  List.flatMap_append

theorem step_relayed {pubTopics : List Str} {topic : Str} {connection : ℕ} {past : List Event}
    (relayed : Relayed pubTopics topic connection past before)
    (stepped : step before label = some (after, events)) :
    Relayed pubTopics topic connection (past ++ events) after := by
  have mirrored := step_mirrored relayed.mirrored stepped
  have listed := relayed.listed
  have law := relayed.law
  have inside := relayed.mirrored.inside
  cases step_changed stepped with
  | @server called stage server emitted allowed moved =>
      refine ⟨mirrored, listed, ?_⟩
      rw [payloads_append, payloads_server, chunks_append, List.flatMap_append, ← law,
        server_upcoming relayed.mirrored allowed moved, List.flatMap_append]
      simp
  | found here | missing here | inserts here | erases here =>
      rw [here] at inside law
      obtain ⟨pass, within⟩ := inside.resolve_left nofun
      refine ⟨mirrored, listed, ?_⟩
      simpa only [upcoming, within, List.append_nil] using law
  | @publishes client data here =>
      rw [here] at inside law
      obtain ⟨pass, within⟩ := inside.resolve_left nofun
      refine ⟨mirrored, listed, ?_⟩
      have silent : ∀ object msgs, chunks connection [.publishes client object msgs] = [] := fun _ _ => rfl
      rw [chunks_append, silent, List.append_nil, ← law, payloads_append]
      simp only [upcoming, within, List.flatMap_nil, List.append_nil]
      congr 1
      -- The messages are those of the data, if the data is of this connection.
      unfold payloads
      cases object : before.server.server.kernel.object client with
      | none => simp [Event.payloads]
      | some what =>
          cases what with
          | listener | other => simp [Event.payloads]
          | connection id =>
              by_cases own : id = connection
              · simp [Event.payloads, own, payloads_onReceiveClientData, listed]
              · simp [Event.payloads, own]
  | clears finished =>
      refine ⟨mirrored, listed, ?_⟩
      rw [List.append_nil]
      exact law

end Step

/-- What the stack publishes on a topic for a connection is what has been received, piece by piece in
order; at the top of the loop nothing is missing. -/
theorem payloads_chunks {pubTopics : List Str} {descriptors : List SOCKET}
    {steps : List (Taken NetStack Label Event)} {final : NetStack}
    (run : Run step (create pubTopics descriptors) steps final) (topic : Str) (connection : ℕ) :
    payloads topic connection (trace steps) <+:
        (chunks connection (trace steps)).flatMap (repeated pubTopics topic) ∧
      (final.server.AtLoop → payloads topic connection (trace steps) =
        (chunks connection (trace steps)).flatMap (repeated pubTopics topic)) := by
  have relayed : Relayed pubTopics topic connection (trace steps) final :=
    run.history (fun _ => True) (Relayed pubTopics topic connection)
      ⟨.running (by simp [create]) (fun _ => rfl) (.inl rfl) rfl, rfl, rfl⟩
      (fun _ _ _ _ _ relayed _ => step_relayed relayed) fun _ _ => trivial
  refine ⟨⟨_, relayed.law⟩, fun top => ?_⟩
  obtain ⟨msg, running⟩ := top.task
  have away : final.server.current.pc = .loop := by rw [System.current_of_task running]
  have law := relayed.law
  rw [relayed.mirrored.done (.inl away), upcoming_done (.inl away)] at law
  simpa using law

theorem ofBytes_flatten (pieces : List (List Byte)) :
    (pieces.map ofBytes).flatten = ofBytes pieces.flatten := by
  unfold ofBytes
  rw [List.map_flatten]

theorem map_ofBytes_inj {pieces others : List (List Byte)} :
    pieces.map ofBytes = others.map ofBytes ↔ pieces = others :=
  (List.map_injective_iff.mpr (Function.LeftInverse.injective toBytes_ofBytes)).eq_iff

/-- When all bytes a client has written have been received and published: on each topic the results of
`Recv` have been published in order, which together are the messages; and they are the messages one by
one exactly if every result ends where a message does, and every message where a result does. -/
theorem payloads_messages {pubTopics : List Str} {descriptors : List SOCKET}
    {steps : List (Taken NetStack Label Event)} {final : NetStack}
    (run : Run step (create pubTopics descriptors) steps final) (top : final.server.AtLoop)
    (connection : ℕ) (writes : List (List Byte × Sent))
    (written : ∀ write ∈ writes, (TcpClient.sendMsg write.1 write.2).success = true)
    (arrived : (chunks connection (trace steps)).flatten =
      (writes.map fun write => TcpClient.accepted write.1 write.2).flatten) (topic : Str) :
    payloads topic connection (trace steps) =
        (chunks connection (trace steps)).flatMap (repeated pubTopics topic) ∧
      (pubTopics.count topic = 1 →
        (payloads topic connection (trace steps)).flatten = ofBytes (writes.map Prod.fst).flatten ∧
        (payloads topic connection (trace steps) = (writes.map Prod.fst).map ofBytes ↔
          ends (chunks connection (trace steps)) = ends (writes.map Prod.fst))) := by
  have published := (payloads_chunks run topic connection).2 top
  refine ⟨published, fun once => ?_⟩
  have whole : (writes.map fun write => TcpClient.accepted write.1 write.2) = writes.map Prod.fst :=
    List.map_congr_left fun write member => TcpClient.accepted_of_success (written write member)
  have single : repeated pubTopics topic = fun chunk => [ofBytes chunk] := by
    funext chunk
    rw [repeated, once]
    rfl
  rw [whole] at arrived
  rw [single, ← List.map_eq_flatMap] at published
  rw [published, ofBytes_flatten, map_ofBytes_inj, arrived]
  exact ⟨rfl, eq_iff_ends arrived⟩

def receiving (data : List Byte) : List Label :=
  System.recvPass.map .server ++
    [.server (.recv data.length data), .server .serverTask, .callback, .server .returns, .server .serverTask]

/-- Two messages are written and come through one by one. -/
theorem payloads_messages_separate : ∃ steps final,
    Run step (create ["topic1".toList] [0, 1, 2]) steps final ∧
      payloads "topic1".toList 0 (trace steps) = [[1], [2]].map ofBytes := by
  have computed : (exec step (create ["topic1".toList] [0, 1, 2])
      (accepting 4 ++ receiving [1] ++ receiving [2])).any (fun (steps, final) =>
        decide (final.server.AtLoop) && decide (chunks 0 (trace steps) = [[1], [2]])) = true := by
    decide +kernel
  obtain ⟨steps, final, run, checked⟩ := exists_run_of_exec computed
  simp only [Bool.and_eq_true, decide_eq_true_eq] at checked
  have published := payloads_messages run checked.1 0 [([1], ⟨1, 0⟩), ([2], ⟨1, 0⟩)] (by decide)
    (by rw [checked.2]; rfl) "topic1".toList
  exact ⟨steps, final, run, (published.2 (by decide)).2.mpr (by rw [checked.2]; rfl)⟩

/-- The two messages are received by one `Recv`, and published as one. -/
theorem messages_merged : ∃ steps final, ∃ writes : List (List Byte × Sent),
    Run step (create ["topic1".toList] [0, 1, 2]) steps final ∧ final.server.AtLoop ∧
      (∀ write ∈ writes, (TcpClient.sendMsg write.1 write.2).success = true ∧ write.1 ≠ [] ∧
        write.1.length ≤ maxPacketSize) ∧
      (chunks 0 (trace steps)).flatten =
        (writes.map fun write => TcpClient.accepted write.1 write.2).flatten ∧
      payloads "topic1".toList 0 (trace steps) ≠ (writes.map Prod.fst).map ofBytes := by
  have computed : (exec step (create ["topic1".toList] [0, 1, 2])
      (accepting 4 ++ receiving [1, 2])).any (fun (steps, final) => decide (final.server.AtLoop) &&
        decide (chunks 0 (trace steps) = [[1, 2]]) &&
        decide (payloads "topic1".toList 0 (trace steps) = [ofBytes [1, 2]])) = true := by
    decide +kernel
  obtain ⟨steps, final, run, checked⟩ := exists_run_of_exec computed
  simp only [Bool.and_eq_true, decide_eq_true_eq] at checked
  obtain ⟨⟨top, received⟩, published⟩ := checked
  refine ⟨steps, final, [([1], ⟨1, 0⟩), ([2], ⟨1, 0⟩)], run, top, by decide, by rw [received]; rfl, ?_⟩
  rw [published]
  decide

end NetStack

end ZmqPlayground
