import ZmqPlayground.Common.TcpServer
import ZmqPlayground.Library.Runs

/-! The server thread among the other threads of its process.

Each critical section of the server's mutex is a step of its own, and so are each
socket call, each change of the watch set outside the mutex, the start of each
callback and its return. Other threads may take steps between any two of them.
-/

set_option autoImplicit false

namespace ZmqPlayground

open Library
open Library.Runs

namespace TcpServer

/-- One pass of the `for` loop: its bound, the set `Select` reported and the loop variable. -/
structure Pass where
  maxfds : Int
  readSet : Finset SOCKET
  fd : SOCKET
  deriving DecidableEq

def Pass.next (pass : Pass) : Pass := { pass with fd := pass.fd + 1 }

inductive Notice where
  | clientMsg (client : ClientHandle) (msgSize : ℕ)
  | disconnected (client : ClientHandle)
  | clientConnect (client : ClientHandle)
  deriving DecidableEq

inductive Pc where
  | loop
  | select (maxfds : Int) (fds : Finset SOCKET)
  | scan (pass : Pass)
  | recv (pass : Pass)
  | delete (pass : Pass)
  | accept (pass : Pass)
  | emplace (pass : Pass) (clientfd : SOCKET) (ip : Str) (port : UInt16)
  | watch (pass : Pass) (clientfd : SOCKET)
  | publish (pass : Pass) (notice : Notice)
  | callback (pass : Pass)
  | exited
  deriving DecidableEq

/-- The thread of `serverTask`, with the buffer `msg` that all clients share. -/
structure Task where
  pc : Pc
  msg : List Byte
  deriving DecidableEq

inductive Callback where
  | onReceiveClientData (client : ClientHandle) (msg : List Byte)
  | onClientDisconnect (client : ClientHandle) (ret : SocketRet)
  | onClientConnect (client : ClientHandle)
  deriving DecidableEq

def Notice.callback (msg : List Byte) : Notice → Callback
  | .clientMsg client msgSize => .onReceiveClientData client (msg.take msgSize)
  | .disconnected client => .onClientDisconnect client { SocketRet.fresh with
      msg := "Client ".toList ++ (toString client).toList ++ " disconnected".toList }
  | .clientConnect client => .onClientConnect client

/-- The operations any thread may call, and the server thread from a callback. -/
inductive Call where
  | deleteClient (handle : ClientHandle)
  /-- `sents` lists the clients in the order of the table, with what `Send` returns for each. -/
  | sendBcast (msg : List Byte) (sents : List (ClientHandle × Sent))
  | sendClientMessage (clientId : ClientHandle) (msg : List Byte) (sent : Sent)
  | getClientInfo (clientId : ClientHandle)
  deriving DecidableEq

/-- The clients of a broadcast are those of the table, in any order. -/
def Call.Visits (server : TcpServer) : Call → Prop
  | .sendBcast _ sents => (sents.map Prod.fst).Perm server.clients.keys
  | _ => True

instance (server : TcpServer) (call : Call) : Decidable (call.Visits server) :=
  match call with
  | .sendBcast _ sents => inferInstanceAs (Decidable ((sents.map Prod.fst).Perm server.clients.keys))
  | .deleteClient _ | .sendClientMessage _ _ _ | .getClientInfo _ => isTrue trivial

inductive Return where
  | deleted (found : Bool)
  | sent (ret : SocketRet)
  | info (client : Option (Str × UInt16 × Bool))
  deriving DecidableEq

def perform (server : TcpServer) : Call → TcpServer × Return
  | .deleteClient handle =>
      let (server, found) := server.deleteClient handle
      (server, .deleted found)
  | .sendBcast msg sents => (server, .sent (server.sendBcast msg sents))
  | .sendClientMessage clientId msg sent => (server, .sent (server.sendClientMessage clientId msg sent))
  | .getClientInfo clientId => (server, .info (server.getClientInfo clientId))

inductive Event where
  | started (ret : SocketRet)
  /-- `Recv` on a descriptor, with what the descriptor refers to. -/
  | recv (fd : SOCKET) (object : Option Object) (numOfBytesReceived : Int) (data : List Byte)
  /-- `Accept` on a descriptor has returned a new one. -/
  | accept (fd clientfd : SOCKET) (connection : ℕ)
  | callback (callback : Callback)
  | returned (ret : Return)
  deriving DecidableEq

inductive Caller where
  | serverTask
  | otherThread
  deriving DecidableEq

inductive Label where
  /-- The server thread goes on, with nothing to choose. -/
  | serverTask
  | select (selectRet : Int) (readSet : Finset SOCKET)
  | recv (numOfBytesReceived : Int) (data : List Byte)
  | accept (clientfd : SOCKET) (ip : Str) (port : UInt16)
  | returns
  | call (caller : Caller) (call : Call)
  /-- `start`; the new thread finds `msg` in its buffer. -/
  | start (calls : StartCalls) (msg : List Byte)
  | stop
  | finish
  /-- The rest of the process opens or closes a descriptor. -/
  | opens (fd : SOCKET)
  | closes (fd : SOCKET)
  deriving DecidableEq

def Label.Outside : Label → Prop
  | .call _ _ | .opens _ | .closes _ => True
  | _ => False

def serverTask (server : TcpServer) (task : Task) : Label → Option (TcpServer × Task × List Event)
  | .serverTask => match task.pc with
      | .loop =>
          if server.stop then some (server, { task with pc := .exited }, [])
          else some (server, { task with pc := .select server.findMaxFd server.fds }, [])
      | .scan pass =>
          if pass.fd < pass.maxfds then
            if pass.fd ∈ pass.readSet then
              if pass.fd ∈ server.clients then some (server, { task with pc := .recv pass }, [])
              -- Whatever is not a registered client is taken for the accept socket.
              else some (server, { task with pc := .accept pass }, [])
            else some (server, { task with pc := .scan pass.next }, [])
          else some (server, { task with pc := .loop }, [])
      | .delete pass =>
          some ((server.deleteClient pass.fd).1, { task with pc := .publish pass (.disconnected pass.fd) }, [])
      | .emplace pass clientfd ip port =>
          some (server.addClient clientfd ip port, { task with pc := .watch pass clientfd }, [])
      | .watch pass clientfd =>
          some ({ server with fds := insert clientfd server.fds },
            { task with pc := .publish pass (.clientConnect clientfd) }, [])
      | .publish pass notice =>
          some (server, { task with pc := .callback pass }, [.callback (notice.callback task.msg)])
      | _ => none
  | .select selectRet readSet => match task.pc with
      | .select maxfds fds =>
          if readSet ⊆ fds then
            if selectRet ≤ 0 then some (server, { task with pc := .loop }, [])
            else some (server, { task with pc := .scan ⟨maxfds, readSet, 0⟩ }, [])
          else none
      | _ => none
  | .recv numOfBytesReceived data => match task.pc with
      | .recv pass =>
          if numOfBytesReceived = data.length ∧ data.length ≤ maxPacketSize ∨
              numOfBytesReceived < 0 ∧ data = [] then
            let event := .recv pass.fd (server.kernel.object pass.fd) numOfBytesReceived data
            if numOfBytesReceived < 1 then
              let server := server.markDisconnected pass.fd
              if numOfBytesReceived = 0 then some (server, { task with pc := .delete pass }, [event])
              -- An error leaves the client registered and is not published.
              else some (server, { task with pc := .scan pass.next }, [event])
            else
              some (server, ⟨.publish pass (.clientMsg pass.fd numOfBytesReceived.toNat),
                data ++ task.msg.drop data.length⟩, [event])
          else none
      | _ => none
  | .accept clientfd ip port => match task.pc with
      | .accept pass =>
          if clientfd = -1 then some (server, { task with pc := .scan pass.next }, [])
          else if server.kernel.IsOpen clientfd then none
          else
            some ({ server with kernel := server.kernel.accept clientfd },
              { task with pc := .emplace pass clientfd ip port },
              [.accept pass.fd clientfd server.kernel.connections])
      | _ => none
  | .returns => match task.pc with
      | .callback pass => some (server, { task with pc := .scan pass.next }, [])
      | _ => none
  | _ => none

/-- The steps of `serverTask` one by one, each with what it has found. -/
inductive Moved (server : TcpServer) (msg : List Byte) :
    Pc → Label → TcpServer → Task → List Event → Prop where
  | exits (stopped : server.stop = true) : Moved server msg .loop .serverTask server ⟨.exited, msg⟩ []
  | selects (running : server.stop = false) :
      Moved server msg .loop .serverTask server ⟨.select server.findMaxFd server.fds, msg⟩ []
  | retries {maxfds : Int} {fds readSet : Finset SOCKET} {selectRet : Int} (subset : readSet ⊆ fds)
      (none_ready : selectRet ≤ 0) :
      Moved server msg (.select maxfds fds) (.select selectRet readSet) server ⟨.loop, msg⟩ []
  | reports {maxfds : Int} {fds readSet : Finset SOCKET} {selectRet : Int} (subset : readSet ⊆ fds)
      (some_ready : 0 < selectRet) :
      Moved server msg (.select maxfds fds) (.select selectRet readSet) server
        ⟨.scan ⟨maxfds, readSet, 0⟩, msg⟩ []
  | ends {pass : Pass} (finished : pass.maxfds ≤ pass.fd) :
      Moved server msg (.scan pass) .serverTask server ⟨.loop, msg⟩ []
  | skips {pass : Pass} (inside : pass.fd < pass.maxfds) (silent : pass.fd ∉ pass.readSet) :
      Moved server msg (.scan pass) .serverTask server ⟨.scan pass.next, msg⟩ []
  | finds {pass : Pass} (inside : pass.fd < pass.maxfds) (reported : pass.fd ∈ pass.readSet)
      (member : pass.fd ∈ server.clients) :
      Moved server msg (.scan pass) .serverTask server ⟨.recv pass, msg⟩ []
  | misses {pass : Pass} (inside : pass.fd < pass.maxfds) (reported : pass.fd ∈ pass.readSet)
      (absent : pass.fd ∉ server.clients) :
      Moved server msg (.scan pass) .serverTask server ⟨.accept pass, msg⟩ []
  | recvFails {pass : Pass} {numOfBytesReceived : Int} (negative : numOfBytesReceived < 0) :
      Moved server msg (.recv pass) (.recv numOfBytesReceived []) (server.markDisconnected pass.fd)
        ⟨.scan pass.next, msg⟩ [.recv pass.fd (server.kernel.object pass.fd) numOfBytesReceived []]
  | recvCloses {pass : Pass} :
      Moved server msg (.recv pass) (.recv 0 []) (server.markDisconnected pass.fd)
        ⟨.delete pass, msg⟩ [.recv pass.fd (server.kernel.object pass.fd) 0 []]
  | receives {pass : Pass} {data : List Byte} (nonempty : data ≠ [])
      (fits : data.length ≤ maxPacketSize) :
      Moved server msg (.recv pass) (.recv data.length data) server
        ⟨.publish pass (.clientMsg pass.fd data.length), data ++ msg.drop data.length⟩
        [.recv pass.fd (server.kernel.object pass.fd) data.length data]
  | deletes {pass : Pass} :
      Moved server msg (.delete pass) .serverTask (server.deleteClient pass.fd).1
        ⟨.publish pass (.disconnected pass.fd), msg⟩ []
  | acceptFails {pass : Pass} {ip : Str} {port : UInt16} :
      Moved server msg (.accept pass) (.accept (-1) ip port) server ⟨.scan pass.next, msg⟩ []
  | accepts {pass : Pass} {clientfd : SOCKET} {ip : Str} {port : UInt16} (valid : clientfd ≠ -1)
      (unused : ¬ server.kernel.IsOpen clientfd) :
      Moved server msg (.accept pass) (.accept clientfd ip port)
        { server with kernel := server.kernel.accept clientfd }
        ⟨.emplace pass clientfd ip port, msg⟩ [.accept pass.fd clientfd server.kernel.connections]
  | emplaces {pass : Pass} {clientfd : SOCKET} {ip : Str} {port : UInt16} :
      Moved server msg (.emplace pass clientfd ip port) .serverTask
        (server.addClient clientfd ip port) ⟨.watch pass clientfd, msg⟩ []
  | watches {pass : Pass} {clientfd : SOCKET} :
      Moved server msg (.watch pass clientfd) .serverTask
        { server with fds := insert clientfd server.fds }
        ⟨.publish pass (.clientConnect clientfd), msg⟩ []
  | publishes {pass : Pass} {notice : Notice} :
      Moved server msg (.publish pass notice) .serverTask server ⟨.callback pass, msg⟩
        [.callback (notice.callback msg)]
  | returns {pass : Pass} :
      Moved server msg (.callback pass) .returns server ⟨.scan pass.next, msg⟩ []

theorem serverTask_moved {server after : TcpServer} {task moved : Task} {label : Label}
    {events : List Event} (stepped : server.serverTask task label = some (after, moved, events)) :
    Moved server task.msg task.pc label after moved events := by
  obtain ⟨pc, msg⟩ := task
  cases label with
  | serverTask =>
      cases pc with
      | loop =>
          simp only [serverTask] at stepped
          split at stepped <;> cases stepped
          · rename_i stopped
            exact .exits stopped
          · rename_i running
            exact .selects (by simpa using running)
      | scan pass =>
          simp only [serverTask] at stepped
          split at stepped
          · rename_i inside
            split at stepped
            · rename_i reported
              split at stepped <;> cases stepped
              · rename_i member
                exact .finds inside reported member
              · rename_i absent
                exact .misses inside reported absent
            · rename_i silent
              cases stepped
              exact .skips inside silent
          · rename_i finished
            cases stepped
            exact .ends (by simpa using finished)
      | delete pass => cases stepped; exact .deletes
      | emplace pass clientfd ip port => cases stepped; exact .emplaces
      | watch pass clientfd => cases stepped; exact .watches
      | publish pass notice => cases stepped; exact .publishes
      | select | recv | accept | callback | exited => cases stepped
  | select selectRet readSet =>
      cases pc with
      | select maxfds fds =>
          simp only [serverTask] at stepped
          split at stepped
          · rename_i subset
            split at stepped <;> cases stepped
            · rename_i none_ready
              exact .retries subset none_ready
            · rename_i some_ready
              exact .reports subset (by omega)
          · cases stepped
      | _ => cases stepped
  | recv numOfBytesReceived data =>
      cases pc with
      | recv pass =>
          simp only [serverTask] at stepped
          split at stepped
          · rename_i result
            split at stepped
            · rename_i failed
              split at stepped <;> cases stepped
              · rename_i zero
                subst zero
                obtain rfl : data = [] := by
                  rcases result with ⟨length, -⟩ | ⟨negative, -⟩
                  · exact List.length_eq_zero_iff.mp (by omega)
                  · omega
                exact .recvCloses
              · rename_i nonzero
                rcases result with ⟨length, -⟩ | ⟨negative, rfl⟩
                · omega
                · exact .recvFails negative
            · rename_i positive
              cases stepped
              rcases result with ⟨rfl, fits⟩ | ⟨negative, -⟩
              · refine .receives ?_ fits
                rintro rfl
                simp at positive
              · omega
          · cases stepped
      | _ => cases stepped
  | accept clientfd ip port =>
      cases pc with
      | accept pass =>
          simp only [serverTask] at stepped
          split at stepped
          · rename_i failed
            cases stepped
            subst failed
            exact .acceptFails
          · rename_i valid
            split at stepped
            · cases stepped
            · rename_i unused
              cases stepped
              exact .accepts valid unused
      | _ => cases stepped
  | returns =>
      cases pc with
      | callback pass => cases stepped; exact .returns
      | _ => cases stepped
  | call | start | stop | finish | opens | closes => cases stepped

end TcpServer

/-- The server with its thread, which exists from a successful start until it is joined. -/
structure System where
  server : TcpServer
  task : Option TcpServer.Task
  terminated : Bool
  deriving DecidableEq

namespace System

open TcpServer

def boot (descriptors : List SOCKET) : System :=
  ⟨.init (.initial descriptors), none, false⟩

def AtLoop (system : System) : Prop := system.task.map (·.pc) = some .loop

instance (system : System) : Decidable system.AtLoop :=
  inferInstanceAs (Decidable (_ = _))

theorem AtLoop.task {system : System} (top : system.AtLoop) :
    ∃ msg, system.task = some ⟨.loop, msg⟩ := by
  obtain ⟨⟨pc, msg⟩, running, same⟩ := Option.map_eq_some_iff.mp top
  exact ⟨msg, same ▸ running⟩

def inCallback (system : System) : Bool :=
  match system.task with
  | some ⟨.callback _, _⟩ => true
  | _ => false

def step : Step System Label Event := fun system label =>
  if system.terminated then none else
  match label with
  | .start calls msg =>
      if calls.socket ≠ invalidSocket ∧ system.server.kernel.IsOpen calls.socket then none
      else
        let (server, ret) := system.server.start calls
        if ret.success then
          -- Assigning to a `std::thread` that has not been joined ends the process.
          if system.task.isSome then some ({ system with server, terminated := true }, [])
          else some ({ system with server, task := some ⟨.loop, msg⟩ }, [.started ret])
        else some ({ system with server }, [.started ret])
  -- `finish` sets the flag, and closes the sockets once the thread has been joined.
  | .stop => some ({ system with server := { system.server with stop := true } }, [])
  | .finish =>
      if system.server.stop ∧ ∀ task ∈ system.task, task.pc = .exited then
        some ({ system with server := system.server.closeSockets, task := none }, [])
      else none
  | .opens fd =>
      if system.server.kernel.IsOpen fd then none
      else some ({ system with server := { system.server with
        kernel := system.server.kernel.opens fd .other Object.other_plain } }, [])
  | .closes fd =>
      if system.server.kernel.object fd = some .other then
        some ({ system with server := { system.server with kernel := system.server.kernel.close fd } }, [])
      else none
  | .call caller call =>
      if (caller = .serverTask → system.inCallback) ∧ call.Visits system.server then
        let (server, ret) := system.server.perform call
        some ({ system with server }, [.returned ret])
      else none
  | label => match system.task with
      | some task => do
          let (server, task, events) ← system.server.serverTask task label
          some ({ system with server, task := some task }, events)
      | none => none

inductive Changed (system : System) : Label → System → List Event → Prop where
  | moves {task next : Task} {label : Label} {server : TcpServer} {events : List Event}
      (running : system.task = some task)
      (moved : Moved system.server task.msg task.pc label server next events) :
      Changed system label { system with server, task := some next } events
  | calls {caller : Caller} {call : Call} (allowed : caller = .serverTask → system.inCallback) :
      Changed system (.call caller call) { system with server := (system.server.perform call).1 }
        [.returned (system.server.perform call).2]
  | starts {calls : StartCalls} {msg : List Byte} {ret : SocketRet}
      (unused : ¬ system.server.kernel.IsOpen calls.socket) (valid : calls.socket ≠ invalidSocket)
      (success : ret.success = true) (idle : system.task = none) :
      Changed system (.start calls msg)
        { system with
          server := { system.server with
            sockfd := calls.socket
            kernel := system.server.kernel.socket calls.socket
            fds := {calls.socket} }
          task := some ⟨.loop, msg⟩ } [.started ret]
  | terminates {calls : StartCalls} {msg : List Byte} {server : TcpServer}
      (busy : system.task ≠ none) :
      Changed system (.start calls msg) { system with server, terminated := true } []
  | startFails {calls : StartCalls} {msg : List Byte} {sockfd : SOCKET} {kernel : Kernel}
      {ret : SocketRet}
      (opened : kernel = system.server.kernel ∨ ∃ fd, ¬ system.server.kernel.IsOpen fd ∧
        kernel = system.server.kernel.socket fd) :
      Changed system (.start calls msg)
        { system with server := { system.server with sockfd, kernel } } [.started ret]
  | stops : Changed system .stop { system with server := { system.server with stop := true } } []
  | finishes (stopped : system.server.stop = true) (joined : ∀ task ∈ system.task, task.pc = .exited) :
      Changed system .finish { system with server := system.server.closeSockets, task := none } []
  | opens {fd : SOCKET} (unused : ¬ system.server.kernel.IsOpen fd) :
      Changed system (.opens fd) { system with server := { system.server with
        kernel := system.server.kernel.opens fd .other Object.other_plain } } []
  | closes {fd : SOCKET} (belongs : system.server.kernel.object fd = some .other) :
      Changed system (.closes fd) { system with server := { system.server with
        kernel := system.server.kernel.close fd } } []

theorem step_alive {system after : System} {label : Label} {events : List Event}
    (stepped : step system label = some (after, events)) : system.terminated = false := by
  unfold step at stepped
  split at stepped
  · cases stepped
  · rename_i alive
    simpa using alive

theorem step_changed {system after : System} {label : Label} {events : List Event}
    (stepped : step system label = some (after, events)) : Changed system label after events := by
  unfold step at stepped
  split at stepped
  · cases stepped
  · cases label with
    | start calls msg =>
        simp only at stepped
        split at stepped
        · cases stepped
        · rename_i unused
          push Not at unused
          rcases start_cases calls system.server with ⟨success, valid, same⟩ | ⟨failed, left⟩
          · rw [if_pos success] at stepped
            split at stepped <;> cases stepped
            · rename_i busy
              exact .terminates (Option.isSome_iff_ne_none.mp busy)
            · rename_i idle
              rw [same]
              exact .starts (unused valid) valid success (by simpa using idle)
          · rw [if_neg (by simp [failed])] at stepped
            cases stepped
            rcases left with same | same | ⟨valid, same⟩
            · rw [same]; exact .startFails (.inl rfl)
            · rw [same]; exact .startFails (.inl rfl)
            · rw [same]; exact .startFails (.inr ⟨_, unused valid, rfl⟩)
    | call caller call =>
        simp only at stepped
        split at stepped <;> cases stepped
        rename_i allowed
        exact .calls allowed.1
    | stop => cases stepped; exact .stops
    | finish =>
        simp only at stepped
        split at stepped <;> cases stepped
        rename_i joined
        exact .finishes joined.1 joined.2
    | opens fd =>
        simp only at stepped
        split at stepped <;> cases stepped
        rename_i unused
        exact .opens unused
    | closes fd =>
        simp only at stepped
        split at stepped <;> cases stepped
        rename_i belongs
        exact .closes belongs
    | serverTask | select | recv | accept | returns =>
        simp only at stepped
        split at stepped
        · rename_i task running
          simp only [Option.bind_eq_bind, Option.bind_eq_some_iff, Option.some.injEq, Prod.mk.injEq,
            Prod.exists] at stepped
          obtain ⟨server, moved, emitted, stepped, rfl, rfl⟩ := stepped
          exact .moves running (serverTask_moved stepped)
        · cases stepped

def listening (socket : SOCKET) : StartCalls := ⟨0, socket, 0, 0, 0, 0, 0, 0⟩

/-- The pass that accepts a client when only the listening socket, 3, is ready. -/
def acceptPass (clientfd : SOCKET) (skipped : ℕ) : List Label :=
  [.serverTask, .select 1 {3}, .serverTask, .serverTask, .serverTask, .serverTask,
    .accept clientfd [] 5000, .serverTask, .serverTask, .serverTask, .returns] ++
    List.replicate (skipped + 1) .serverTask

end System

end ZmqPlayground
