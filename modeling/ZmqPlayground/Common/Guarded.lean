import ZmqPlayground.Common.Broadcasts
import ZmqPlayground.Library.Monitor

/-! What a TCP server does with its client table, access by access.

All of it is done under `m_mutex`, so that the threads' operations act as if each were made
at once: this is what makes them single steps elsewhere. What they do with the watch set and
the descriptors is only recorded, since these are used without the mutex as well. So are a
client's `m_isConnected` and the table in `findMaxFd`, by the server thread, which is left out.
-/

set_option autoImplicit false

namespace ZmqPlayground

open Library Library.Runs

namespace TcpServer

/-- An order in which an unordered map with some keys may be gone through. -/
abbrev Iteration := { order : List ClientHandle → List ClientHandle // ∀ handles, (order handles).Perm handles }

/-- What the mutex is held for. -/
inductive Operation where
  | deleteClient (handle : ClientHandle)
  /-- With what `Send` would return for each client. -/
  | sendBcast (iteration : Iteration) (msg : List Byte) (results : ClientHandle → SendResult msg)
  /-- The block in which `sendClientMessage` and the server thread look for a client. -/
  | find (fd : SOCKET)
  | getClientInfo (clientId : ClientHandle)
  /-- The block in which the server thread enters a connection. -/
  | emplace (clientfd : SOCKET) (ip : Str) (port : UInt16)
  /-- The end of `finish`. -/
  | closeSockets (iteration : Iteration)

/-- What an operation does outside the table, and what it returns. -/
inductive Access where
  | closes (fd : SOCKET)
  | clears (fd : SOCKET)
  | sends (fd : SOCKET) (msg : List Byte)
  | finds (fd : SOCKET) (client : Bool)
  | returns (ret : Return)
  deriving DecidableEq

structure Guarded where
  sockfd : SOCKET
  clients : Table ClientHandle Client

def guarded (server : TcpServer) : Guarded := ⟨server.sockfd, server.clients⟩

/-- The next access of an operation, with its local variables. -/
inductive Place where
  | counting (handle : ClientHandle)
  | closing (handle : ClientHandle)
  | clearing (handle : ClientHandle)
  | erasing (handle : ClientHandle)
  | sending (msg : List Byte) (results : ClientHandle → SendResult msg) (rest : List ClientHandle)
  | beginning (iteration : Iteration) (msg : List Byte) (results : ClientHandle → SendResult msg)
  | finding (fd : SOCKET)
  | reading (clientId : ClientHandle)
  | copying (clientId : ClientHandle)
  | emplacing (clientfd : SOCKET) (ip : Str) (port : UInt16)
  | visiting (iteration : Iteration)
  | closingAll (rest : List ClientHandle)
  | closingAccept
  | forgetting
  | clearingAll
  | returning (ret : Return)
  | done

def Operation.enter : Operation → Place
  | .deleteClient handle => .counting handle
  | .sendBcast iteration msg results => .beginning iteration msg results
  | .find fd => .finding fd
  | .getClientInfo clientId => .reading clientId
  | .emplace clientfd ip port => .emplacing clientfd ip port
  | .closeSockets iteration => .visiting iteration

/-- One access to the table or one call of the socket interface. A client that has been found is used
where it is stored. -/
def work (guarded : Guarded) : Place → Option (Guarded × Place × Option Access)
  | .counting handle =>
      if handle ∈ guarded.clients then some (guarded, .closing handle, none)
      else some (guarded, .returning (.deleted false), none)
  | .closing handle =>
      some (guarded, .clearing handle, (guarded.clients.lookup handle).map fun client => .closes client.sockfd)
  | .clearing handle =>
      some (guarded, .erasing handle, (guarded.clients.lookup handle).map fun client => .clears client.sockfd)
  | .erasing handle =>
      some ({ guarded with clients := guarded.clients.erase handle }, .returning (.deleted true), none)
  | .beginning iteration msg results => some (guarded, .sending msg results (iteration.val guarded.clients.keys), none)
  | .sending _ _ [] => some (guarded, .returning (.sent .succeeded), none)
  | .sending msg results (handle :: rest) =>
      match guarded.clients.lookup handle with
      | some client =>
          let clientRet := client.sendMsg msg (results handle)
          some (guarded, if clientRet.success then .sending msg results rest else .returning (.sent clientRet),
            (client.sendCalls msg).head?.map fun call => .sends call.1 call.2)
      | none => some (guarded, .sending msg results rest, none)
  | .finding fd => some (guarded, .done, some (.finds fd (fd ∈ guarded.clients)))
  | .reading clientId =>
      if clientId ∈ guarded.clients then some (guarded, .copying clientId, none)
      else some (guarded, .returning (.info none), none)
  | .copying clientId =>
      some (guarded, .returning (.info ((guarded.clients.lookup clientId).map fun client =>
        (client.ip, client.port, client.isConnected))), none)
  | .emplacing clientfd ip port =>
      some ({ guarded with clients := guarded.clients.emplace clientfd ⟨ip, clientfd, port, true⟩ }, .done, none)
  | .visiting iteration => some (guarded, .closingAll (iteration.val guarded.clients.keys), none)
  | .closingAll (handle :: rest) =>
      some (guarded, .closingAll rest, (guarded.clients.lookup handle).map fun client => .closes client.sockfd)
  | .closingAll [] => some (guarded, .closingAccept, none)
  | .closingAccept =>
      some (guarded, .forgetting, if guarded.sockfd ≠ invalidSocket then some (.closes guarded.sockfd) else none)
  | .forgetting => some ({ guarded with sockfd := invalidSocket }, .clearingAll, none)
  | .clearingAll => some ({ guarded with clients := ∅ }, .done, none)
  | .returning ret => some (guarded, .done, some (.returns ret))
  | .done => none

def remaining (guarded : Guarded) : Place → ℕ
  | .counting _ => 5
  | .closing _ => 4
  | .clearing _ => 3
  | .erasing _ => 2
  | .beginning _ _ _ => guarded.clients.keys.length + 3
  | .sending _ _ rest => rest.length + 2
  | .finding _ | .emplacing _ _ _ => 1
  | .reading _ => 3
  | .copying _ => 2
  | .visiting _ => guarded.clients.keys.length + 5
  | .closingAll rest => rest.length + 4
  | .closingAccept => 3
  | .forgetting => 2
  | .clearingAll => 1
  | .returning _ => 1
  | .done => 0

theorem remaining_work (guarded : Guarded) (place : Place) (after : Guarded) (next : Place)
    (output : Option Access) (worked : work guarded place = some (after, next, output)) :
    remaining after next < remaining guarded place := by
  cases place with
  | counting | reading =>
      simp only [work] at worked
      split at worked <;> cases worked <;> simp [remaining]
  | beginning iteration | visiting iteration =>
      cases worked
      simp [remaining, (iteration.property guarded.clients.keys).length_eq]
  | sending msg results rest =>
      cases rest with
      | nil =>
          cases worked
          simp [remaining]
      | cons handle rest =>
          simp only [work] at worked
          split at worked <;> cases worked
          · split <;> simp [remaining]
          · simp [remaining]
  | closingAll rest =>
      cases rest <;> cases worked <;> simp [remaining]
  | done => cases worked
  | closing | clearing | erasing | finding | copying | emplacing | closingAccept | forgetting | clearingAll
  | returning =>
      cases worked
      simp [remaining]

def monitor : Monitor Guarded Operation Place Access where
  enter := Operation.enter
  work := work
  size := remaining
  shrinks := remaining_work

def closings (server : TcpServer) (handles : List ClientHandle) : List Access :=
  handles.flatMap fun handle =>
    ((server.clients.lookup handle).map fun client => Access.closes client.sockfd).toList

/-- An operation made at once, with what it does in passing. -/
def atomically (server : TcpServer) : Operation → TcpServer × List Access
  | .deleteClient handle =>
      let (after, found) := server.deleteClient handle
      (after, ((server.clients.lookup handle).elim [] fun client =>
        [.closes client.sockfd, .clears client.sockfd]) ++ [.returns (.deleted found)])
  | .sendBcast iteration msg results =>
      let visits := (iteration.val server.clients.keys).map fun handle => (handle, results handle)
      (server, (server.sendCalls msg visits).map (fun call => .sends call.1 call.2) ++
        [.returns (.sent (server.sendBcast msg (visits.map fun (handle, result) => (handle, result.val))))])
  | .find fd => (server, [.finds fd (fd ∈ server.clients)])
  | .getClientInfo clientId => (server, [.returns (.info (server.getClientInfo clientId))])
  | .emplace clientfd ip port => (server.addClient clientfd ip port, [])
  | .closeSockets iteration => (server.closeSockets, server.closings (iteration.val server.clients.keys) ++
      if server.sockfd ≠ invalidSocket then [.closes server.sockfd] else [])

theorem outcome_sending (server : TcpServer) (msg : List Byte) (results : ClientHandle → SendResult msg)
    (rest : List ClientHandle) :
    monitor.outcome server.guarded (.sending msg results rest) =
      (server.guarded,
        (server.sendCalls msg (rest.map fun handle => (handle, results handle))).map
            (fun call => .sends call.1 call.2) ++
          [.returns (.sent (server.sendBcast msg (rest.map fun handle => (handle, (results handle).val))))]) := by
  have returns (ret : SocketRet) : monitor.outcome server.guarded (.returning (.sent ret)) =
      (server.guarded, [.returns (.sent ret)]) := by
    rw [Monitor.outcome_worked rfl, Monitor.outcome_ended rfl]
    rfl
  induction rest with
  | nil =>
      rw [Monitor.outcome_worked rfl, returns]
      rfl
  | cons handle rest ih =>
      rw [List.map_cons, List.map_cons, sendCalls, TcpServer.sendBcast]
      cases found : server.clients.lookup handle with
      | none =>
          have skips : monitor.work server.guarded (.sending msg results (handle :: rest)) =
              some (server.guarded, .sending msg results rest, none) := by
            simp only [monitor, work, guarded, found]
          rw [Monitor.outcome_worked skips, ih]
          rfl
      | some client =>
          have sends : monitor.work server.guarded (.sending msg results (handle :: rest)) =
              some (server.guarded, if (client.sendMsg msg (results handle)).success then .sending msg results rest
                else .returning (.sent (client.sendMsg msg (results handle))),
                (client.sendCalls msg).head?.map fun call => .sends call.1 call.2) := by
            simp only [monitor, work, guarded, found]
          have one : ((client.sendCalls msg).head?.map fun call => Access.sends call.1 call.2).toList =
              (client.sendCalls msg).map fun call => .sends call.1 call.2 := by
            unfold Client.sendCalls
            split <;> rfl
          rw [Monitor.outcome_worked sends, one]
          simp only
          split
          · rw [ih, List.map_append, List.append_assoc]
          · rw [returns, List.append_nil]

theorem outcome_closingAll (server : TcpServer) (rest : List ClientHandle) :
    monitor.outcome server.guarded (.closingAll rest) =
      (server.closeSockets.guarded, server.closings rest ++
        if server.sockfd ≠ invalidSocket then [.closes server.sockfd] else []) := by
  induction rest with
  | nil =>
      by_cases valid : server.sockfd ≠ invalidSocket
      · have closes : monitor.work server.guarded .closingAccept =
            some (server.guarded, .forgetting, some (.closes server.sockfd)) := by
          simp only [monitor, work, guarded, if_pos valid]
        rw [Monitor.outcome_worked rfl, Monitor.outcome_worked closes, Monitor.outcome_worked rfl,
          Monitor.outcome_worked rfl, Monitor.outcome_ended rfl, if_pos valid]
        rfl
      · have passes : monitor.work server.guarded .closingAccept = some (server.guarded, .forgetting, none) := by
          simp only [monitor, work, guarded, if_neg valid]
        rw [Monitor.outcome_worked rfl, Monitor.outcome_worked passes, Monitor.outcome_worked rfl,
          Monitor.outcome_worked rfl, Monitor.outcome_ended rfl, if_neg valid]
        rfl
  | cons handle rest ih =>
      rw [Monitor.outcome_worked rfl, ih]
      simp [closings, List.append_assoc, guarded]

theorem perform_atomically (server : TcpServer) (operation : Operation) :
    monitor.perform server.guarded operation =
      ((atomically server operation).1.guarded, (atomically server operation).2) := by
  cases operation with
  | deleteClient handle =>
      rw [Monitor.perform, atomically, deleteClient]
      cases found : server.clients.lookup handle with
      | none =>
          have absent : handle ∉ server.clients := AList.lookup_eq_none.mp found
          have counts : monitor.work server.guarded (.counting handle) =
              some (server.guarded, .returning (.deleted false), none) := if_neg absent
          exact (Monitor.outcome_worked counts).trans (by
            rw [Monitor.outcome_worked rfl, Monitor.outcome_ended rfl]
            rfl)
      | some client =>
          have member : handle ∈ server.clients := Table.mem_of_lookup found
          have counts : monitor.work server.guarded (.counting handle) =
              some (server.guarded, .closing handle, none) := if_pos member
          refine (Monitor.outcome_worked counts).trans ?_
          rw [Monitor.outcome_worked rfl, Monitor.outcome_worked rfl, Monitor.outcome_worked rfl,
            Monitor.outcome_worked rfl, Monitor.outcome_ended rfl]
          simp [guarded, found]
  | sendBcast iteration msg results =>
      rw [Monitor.perform, Monitor.outcome_worked rfl, outcome_sending, atomically]
      simp [guarded, Function.comp_def]
  | find fd =>
      rw [Monitor.perform, Monitor.outcome_worked rfl, Monitor.outcome_ended rfl]
      rfl
  | getClientInfo clientId =>
      rw [Monitor.perform, atomically, getClientInfo]
      cases found : server.clients.lookup clientId with
      | none =>
          have absent : clientId ∉ server.clients := AList.lookup_eq_none.mp found
          have reads : monitor.work server.guarded (.reading clientId) =
              some (server.guarded, .returning (.info none), none) := if_neg absent
          refine (Monitor.outcome_worked reads).trans ?_
          rw [Monitor.outcome_worked rfl, Monitor.outcome_ended rfl]
          rfl
      | some client =>
          have member : clientId ∈ server.clients := Table.mem_of_lookup found
          have reads : monitor.work server.guarded (.reading clientId) =
              some (server.guarded, .copying clientId, none) := if_pos member
          refine (Monitor.outcome_worked reads).trans ?_
          rw [Monitor.outcome_worked rfl, Monitor.outcome_worked rfl, Monitor.outcome_ended rfl]
          simp [guarded, found]
  | emplace clientfd ip port =>
      rw [Monitor.perform, Monitor.outcome_worked rfl, Monitor.outcome_ended rfl]
      rfl
  | closeSockets iteration =>
      rw [Monitor.perform, Monitor.outcome_worked rfl, outcome_closingAll]
      rfl

variable {Thread : Type}

def serial : TcpServer → List (Thread × Operation) → List (Monitor.Event Thread Operation Access)
  | _, [] => []
  | server, (thread, operation) :: operations =>
      Monitor.block thread operation (server.atomically operation).2 ++
        serial (server.atomically operation).1 operations

theorem serial_guarded (server : TcpServer) (operations : List (Thread × Operation)) :
    monitor.serial server.guarded operations = server.serial operations := by
  induction operations generalizing server with
  | nil => rfl
  | cons first operations ih =>
      obtain ⟨thread, operation⟩ := first
      rw [Monitor.serial, serial, perform_atomically, ih]

def sentTo (fd : SOCKET) (accesses : List Access) : List (List Byte) :=
  accesses.filterMap fun
    | .sends other msg => if other = fd then some msg else none
    | .closes _ | .clears _ | .finds _ _ | .returns _ => none

theorem sentTo_append (fd : SOCKET) (first rest : List Access) :
    sentTo fd (first ++ rest) = sentTo fd first ++ sentTo fd rest :=
  List.filterMap_append

theorem sentTo_sublist (fd : SOCKET) {some all : List Access} (sublist : some.Sublist all) :
    (sentTo fd some).Sublist (sentTo fd all) :=
  sublist.filterMap _

theorem sentTo_sends (fd : SOCKET) (msg : List Byte) (handles : List ClientHandle) :
    sentTo fd (handles.map fun handle => .sends handle msg) = List.replicate (handles.count fd) msg := by
  induction handles with
  | nil => rfl
  | cons handle handles ih =>
      rw [List.map_cons, sentTo, List.filterMap_cons, ← sentTo, ih, List.count_cons]
      by_cases same : handle = fd <;> simp [same, List.replicate_succ]

theorem sentTo_closings (fd : SOCKET) (server : TcpServer) (handles : List ClientHandle) :
    sentTo fd (server.closings handles) = [] := by
  induction handles with
  | nil => rfl
  | cons handle handles ih =>
      rw [closings, List.flatMap_cons, sentTo_append, ← closings, ih]
      cases server.clients.lookup handle <;> rfl

def broadcasts (operations : List (Thread × Operation)) : List (List Byte) :=
  operations.filterMap fun
    | (_, .sendBcast _ msg _) => some msg
    | (_, .deleteClient _) | (_, .find _) | (_, .getClientInfo _) | (_, .emplace _ _ _) | (_, .closeSockets _) => none

theorem broadcasts_append (first rest : List (Thread × Operation)) :
    broadcasts (first ++ rest) = broadcasts first ++ broadcasts rest :=
  List.filterMap_append

/-- Each client is stored under its own descriptor. -/
def Stored (server : TcpServer) : Prop :=
  ∀ handle client, server.clients.lookup handle = some client → client.sockfd = handle

section Order
variable {server : TcpServer}

theorem Stored.atomically (stored : server.Stored) (operation : Operation) :
    (server.atomically operation).1.Stored := by
  cases operation with
  | deleteClient handle =>
      intro other client found
      refine stored other client ?_
      simp only [TcpServer.atomically, deleteClient] at found
      split at found
      · rw [Table.lookup_erase] at found
        split at found
        · cases found
        · exact found
      · exact found
  | emplace clientfd ip port =>
      intro other client found
      simp only [TcpServer.atomically, addClient, Table.emplace] at found
      split at found
      · exact stored other client found
      · rw [Table.lookup_insert] at found
        split at found
        · rename_i same
          cases found
          exact same.symm
        · exact stored other client found
  | closeSockets iteration =>
      intro other client found
      cases found
  | sendBcast | find | getClientInfo => exact stored

theorem Stored.sendCalls_sublist (stored : server.Stored) (msg : List Byte)
    (results : List (ClientHandle × SendResult msg)) :
    (server.sendCalls msg results).Sublist (results.map fun visit => (visit.1, msg)) := by
  induction results with
  | nil => exact .slnil
  | cons visit rest ih =>
      obtain ⟨handle, result⟩ := visit
      rw [sendCalls, List.map_cons]
      cases found : server.clients.lookup handle with
      | none => exact ih.cons _
      | some client =>
          have calls : (client.sendCalls msg).Sublist [(handle, msg)] := by
            rw [Client.sendCalls, stored handle client found]
            split
            · exact .refl _
            · exact List.nil_sublist _
          refine calls.append ?_
          split
          · exact ih
          · exact List.nil_sublist _

theorem Stored.sentTo_sendBcast (stored : server.Stored) (fd : SOCKET) (iteration : Iteration) (msg : List Byte)
    (results : ClientHandle → SendResult msg) :
    (sentTo fd (server.atomically (.sendBcast iteration msg results)).2).Sublist [msg] := by
  have distinct : (iteration.val server.clients.keys).Nodup :=
    (iteration.property server.clients.keys).nodup_iff.mpr server.clients.keys_nodup
  have once : (iteration.val server.clients.keys).count fd ≤ 1 := List.nodup_iff_count_le_one.mp distinct fd
  have visits := (stored.sendCalls_sublist msg
    ((iteration.val server.clients.keys).map fun handle => (handle, results handle))).map
      fun call => Access.sends call.1 call.2
  simp only [List.map_map, Function.comp_def] at visits
  have sends := sentTo_sublist fd visits
  rw [sentTo_sends] at sends
  have returns (ret : Return) : sentTo fd [.returns ret] = [] := rfl
  rw [TcpServer.atomically, sentTo_append, returns, List.append_nil]
  exact sends.trans <| (List.replicate_sublist_replicate (n := 1) msg).mpr once

theorem Stored.sentTo_atomically (stored : server.Stored) (fd : SOCKET) (thread : Thread) (operation : Operation) :
    (sentTo fd (server.atomically operation).2).Sublist (broadcasts [(thread, operation)]) := by
  cases operation with
  | sendBcast iteration msg results => exact stored.sentTo_sendBcast fd iteration msg results
  | deleteClient handle =>
      simp only [TcpServer.atomically]
      cases server.clients.lookup handle <;> exact List.nil_sublist _
  | closeSockets iteration =>
      rw [TcpServer.atomically, sentTo_append, sentTo_closings]
      split <;> exact List.nil_sublist _
  | find | getClientInfo | emplace => exact List.nil_sublist _

/-- What is sent on a descriptor are some of the broadcasts, in the order of the operations. -/
theorem Stored.sentTo_serial (stored : server.Stored) (fd : SOCKET) (operations : List (Thread × Operation)) :
    (sentTo fd (Monitor.outputs (server.serial operations))).Sublist (broadcasts operations) := by
  induction operations generalizing server with
  | nil => exact .slnil
  | cons first operations ih =>
      obtain ⟨thread, operation⟩ := first
      rw [serial, Monitor.outputs_append, Monitor.outputs_block, sentTo_append, ← List.singleton_append,
        broadcasts_append]
      exact (stored.sentTo_atomically fd thread operation).append (ih (stored.atomically operation))

section Threads
variable [DecidableEq Thread] {steps : List (Taken (Monitor.State Thread Guarded Operation Place)
    (Monitor.Label Thread Operation) (Monitor.Event Thread Operation Access))}
  {final : Monitor.State Thread Guarded Operation Place}

/-- However threads use the client table of a server, they do what they would do one operation at a
time, each at once, in the order in which they take the mutex; `due` is what the operation that still
has it will do. So what any client is sent by
broadcasts comes in one and the same order. -/
theorem table_serial (stored : server.Stored) (run : Run monitor.step (Monitor.initial server.guarded) steps final) :
    (∃ due, trace steps ++ due = server.serial (Monitor.order (trace steps)) ∧ (final.mutex = none → due = [])) ∧
      ∀ fd, (sentTo fd (Monitor.outputs (trace steps))).Sublist (broadcasts (Monitor.order (trace steps))) := by
  obtain ⟨due, same, settled⟩ := Monitor.trace_serial run
  rw [serial_guarded] at same
  refine ⟨⟨due, same, settled⟩, fun fd => ?_⟩
  have sends := stored.sentTo_serial fd (Monitor.order (trace steps))
  rw [← same, Monitor.outputs_append, sentTo_append] at sends
  exact (List.sublist_append_left _ _).trans sends

end Threads

end Order

/-- A thread broadcasts while another one deletes the first of the two clients, and waits for it. -/
theorem table_serial_deleted : ∃ steps, ∃ final : Monitor.State ℕ Guarded Operation Place,
    Run monitor.step (Monitor.initial twoClients.guarded) steps final ∧
      final.mutex = none ∧
      Monitor.outputs (trace steps) = [.sends 4 [7], .sends 5 [7], .returns (.sent .succeeded), .closes 4, .clears 4,
        .returns (.deleted true)] ∧
      ∀ fd, (sentTo fd (Monitor.outputs (trace steps))).Sublist [[7]] := by
  have stored : twoClients.Stored :=
    Stored.atomically (Stored.atomically (show (init (.initial [0, 1, 2])).Stored from nofun)
      (.emplace 4 [] 5000)) (.emplace 5 [] 5001)
  have computed : (exec monitor.step (Monitor.initial twoClients.guarded)
      [.call 0 (.sendBcast ⟨List.reverse, List.reverse_perm⟩ [7] fun _ => ⟨⟨1, 0⟩, by decide⟩), .lock 0, .work 0, .work 0,
        .call 1 (.deleteClient 4), .work 0, .work 0, .work 0, .unlock 0,
        .lock 1, .work 1, .work 1, .work 1, .work 1, .work 1, .unlock 1]).any (fun (steps, final) =>
          final.mutex == (none : Option ℕ) && decide (Monitor.outputs (trace steps) =
            [.sends 4 [7], .sends 5 [7], .returns (.sent .succeeded), .closes 4, .clears 4,
              .returns (.deleted true)] ∧
            broadcasts (Monitor.order (trace steps)) = [[7]])) = true := by
    decide +kernel
  obtain ⟨steps, final, run, computed⟩ := exists_run_of_exec computed
  simp only [Bool.and_eq_true, beq_iff_eq, decide_eq_true_eq] at computed
  obtain ⟨unowned, outputs, broadcast⟩ := computed
  obtain ⟨_, sent⟩ := table_serial stored run
  exact ⟨steps, final, run, unowned, outputs, broadcast ▸ sent⟩

end TcpServer

end ZmqPlayground
