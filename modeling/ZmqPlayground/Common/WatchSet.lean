import ZmqPlayground.Common.ClientTable

/-! The watch set and the client table of a running server.

A client is entered into the table in one step and into the watch set in a later
one, and it is taken out of both in one. Between the two steps of a registration
only the thread that registers removes clients.
-/

set_option autoImplicit false

namespace ZmqPlayground

open Library
open Library.Runs

namespace TcpServer

def Pc.unwatched : Pc → Option SOCKET
  | .watch _ clientfd => some clientfd
  | _ => none

/-- The watch set holds the listening socket and the clients of the table, but for a client that is
being registered. -/
structure Watched (server : TcpServer) (arriving unwatched : Option SOCKET) : Prop
    extends Registered server arriving where
  listens : server.kernel.object server.sockfd = some .listener
  watched : ∀ fd, fd ∈ server.fds ∨ unwatched = some fd ↔ fd = server.sockfd ∨ fd ∈ server.clients

section Operations
variable {server : TcpServer} {arriving unwatched : Option SOCKET}

theorem Watched.listener_not_mem (watched : Watched server arriving unwatched) :
    server.sockfd ∉ server.clients := by
  intro member
  obtain ⟨-, id, found⟩ := watched.connected member
  rw [watched.listens] at found
  cases found

theorem Watched.of_kernel (watched : Watched server arriving unwatched) {kernel : Kernel}
    (others : server.kernel.Others kernel) : Watched { server with kernel } arriving unwatched :=
  ⟨watched.toRegistered.of_others rfl others, others.listener watched.listens, watched.watched⟩

theorem Watched.markDisconnected (watched : Watched server arriving unwatched) (fd : SOCKET) :
    Watched (server.markDisconnected fd) arriving unwatched := by
  refine ⟨watched.toRegistered.markDisconnected fd, watched.listens, ?_⟩
  simp only [TcpServer.markDisconnected, Table.mem_modify]
  exact watched.watched

theorem Watched.deleteClient (watched : Watched server none none) (handle : ClientHandle) :
    Watched (server.deleteClient handle).1 none none := by
  refine ⟨watched.toRegistered.deleteClient handle, ?_, fun fd => ?_⟩
  · by_cases member : handle ∈ server.clients
    · have listener : server.sockfd ≠ handle := by
        rintro rfl
        exact watched.listener_not_mem member
      rw [watched.deleteClient_eq member]
      simpa [listener] using watched.listens
    · rw [deleteClient_of_not_mem member]
      exact watched.listens
  · have before := watched.watched fd
    by_cases member : handle ∈ server.clients
    · have listener : handle ≠ server.sockfd := by
        rintro rfl
        exact watched.listener_not_mem member
      rw [watched.deleteClient_eq member]
      simp only [Finset.mem_erase, AList.mem_erase, reduceCtorEq, or_false] at before ⊢
      by_cases gone : fd = handle
      · simp [gone, listener]
      · simpa [gone] using before
    · rwa [deleteClient_of_not_mem member]

theorem Watched.accept (watched : Watched server none none) {clientfd : SOCKET}
    (valid : clientfd ≠ -1) (unused : ¬ server.kernel.IsOpen clientfd) :
    Watched { server with kernel := server.kernel.accept clientfd } (some clientfd) none :=
  ⟨watched.toRegistered.accept valid unused,
    Kernel.object_accept_of_open unused watched.listens, watched.watched⟩

theorem Watched.addClient {clientfd : SOCKET} (watched : Watched server (some clientfd) none)
    (ip : Str) (port : UInt16) :
    Watched (server.addClient clientfd ip port) none (some clientfd) := by
  refine ⟨watched.toRegistered.addClient ip port, watched.listens, fun fd => ?_⟩
  have before := watched.watched fd
  rw [TcpServer.addClient, Table.emplace_of_not_mem (watched.arrives rfl).1]
  simp only [AList.mem_insert, Option.some.injEq, reduceCtorEq, or_false] at before ⊢
  rw [before, eq_comm (a := clientfd)]
  tauto

theorem Watched.watch {clientfd : SOCKET} (watched : Watched server none (some clientfd)) :
    Watched { server with fds := insert clientfd server.fds } none none := by
  refine ⟨⟨watched.stored, watched.connected, watched.registered, nofun⟩, watched.listens,
    fun fd => ?_⟩
  rw [← watched.watched fd]
  simp only [Finset.mem_insert, reduceCtorEq, or_false, Option.some.injEq]
  rw [or_comm, eq_comm (a := fd)]

theorem Watched.listening (empty : server.clients = ∅)
    (unconnected : ∀ fd id, server.kernel.object fd ≠ some (.connection id)) {fd : SOCKET}
    (unused : ¬ server.kernel.IsOpen fd) :
    Watched { server with sockfd := fd, kernel := server.kernel.socket fd, fds := {fd} } none none := by
  have others := Kernel.Others.socket (Kernel.not_open unused)
  exact ⟨.of_empty empty (others.unconnected unconnected), by simp, by simp [empty]⟩

theorem Moved.watched {msg : List Byte} {pc : Pc} {label : Label} {after : TcpServer} {task : Task}
    {events : List Event} (moved : Moved server msg pc label after task events)
    (watched : Watched server pc.arriving pc.unwatched) :
    Watched after task.pc.arriving task.pc.unwatched := by
  cases moved with
  | recvFails | recvCloses => exact watched.markDisconnected _
  | deletes => exact watched.deleteClient _
  | accepts valid unused => exact watched.accept valid unused
  | emplaces => exact watched.addClient _ _
  | watches => exact watched.watch
  | _ => exact watched

end Operations

/-- What holds of a server each time its thread is at the top of the loop. -/
structure Consistent (server : TcpServer) : Prop where
  watchSet : server.fds = insert server.sockfd server.clients.keySet
  listener : server.sockfd ∉ server.clients
  entries : ∀ handle client, server.clients.lookup handle = some client →
    client.sockfd = handle ∧ server.kernel.IsOpen handle ∧ handle ≠ invalidSocket
  bounded : ∀ fd ∈ server.fds, fd < server.findMaxFd

theorem Watched.consistent {server : TcpServer} (watched : Watched server none none) :
    Consistent server where
  watchSet := by
    ext fd
    have member := watched.watched fd
    simpa using member
  listener := watched.listener_not_mem
  entries := by
    intro handle client found
    obtain ⟨valid, id, connection⟩ := watched.connected (Table.mem_of_lookup found)
    refine ⟨watched.stored found, ?_, valid⟩
    rw [Kernel.IsOpen, connection]
    rfl
  bounded := by
    intro fd member
    rcases (watched.watched fd).mp (.inl member) with rfl | client
    · exact sockfd_lt_findMaxFd server
    · obtain ⟨client, found⟩ := Table.exists_lookup client
      rw [← watched.stored found]
      exact client_lt_findMaxFd found

end TcpServer

namespace System

open TcpServer

/-- The steps of a server that is started once and not finished, and whose clients are only deleted
by its own thread. -/
def Serving (taken : Taken System Label Event) : Prop :=
  match taken.label with
  | .start _ _ => taken.before.task = none
  | .stop | .finish | .call .otherThread (.deleteClient _) => False
  | _ => True

instance (taken : Taken System Label Event) : Decidable (Serving taken) :=
  match taken with
  | ⟨before, .start _ _, _⟩ => inferInstanceAs (Decidable (before.task = none))
  | ⟨_, .stop, _⟩ | ⟨_, .finish, _⟩ | ⟨_, .call .otherThread (.deleteClient _), _⟩ => isFalse id
  | ⟨_, .serverTask, _⟩ | ⟨_, .select _ _, _⟩ | ⟨_, .recv _ _, _⟩ | ⟨_, .accept _ _ _, _⟩
  | ⟨_, .returns, _⟩ | ⟨_, .opens _, _⟩ | ⟨_, .closes _, _⟩ | ⟨_, .call .serverTask _, _⟩
  | ⟨_, .call .otherThread (.sendBcast _ _), _⟩
  | ⟨_, .call .otherThread (.sendClientMessage _ _ _), _⟩
  | ⟨_, .call .otherThread (.getClientInfo _), _⟩ => isTrue trivial

def Watching (system : System) : Prop :=
  match system.task with
  | some task => Watched system.server task.pc.arriving task.pc.unwatched
  | none => system.server.clients = ∅ ∧
      ∀ fd id, system.server.kernel.object fd ≠ some (.connection id)

theorem boot_watching (descriptors : List SOCKET) : (boot descriptors).Watching :=
  ⟨rfl, Kernel.initial_unconnected descriptors⟩

theorem serving_cases {before after : System} {label : Label} {events : List Event} {task : Task}
    (running : before.task = some task) (serving : Serving ⟨before, label, events⟩)
    (stepped : step before label = some (after, events)) :
    (∃ server next, Moved before.server task.msg task.pc label server next events ∧
      after = { before with server, task := some next }) ∨
    (∃ handle pass, label = .call .serverTask (.deleteClient handle) ∧ task.pc = .callback pass ∧
      after = { before with server := (before.server.deleteClient handle).1 }) ∨
    ∃ kernel, before.server.kernel.Others kernel ∧ label.Outside ∧
      after = { before with server := { before.server with kernel } } := by
  cases step_changed stepped with
  | moves found moved =>
      obtain rfl := Option.some.inj (running.symm.trans found)
      exact .inl ⟨_, _, moved, rfl⟩
  | @calls caller call allowed =>
      cases call with
      | deleteClient handle =>
          cases caller with
          | otherThread => exact serving.elim
          | serverTask =>
              have inside := allowed rfl
              rw [inCallback, running] at inside
              obtain ⟨pc, msg⟩ := task
              cases pc with
              | callback pass => exact .inr (.inl ⟨handle, pass, rfl, rfl, rfl⟩)
              | _ => cases inside
      | sendBcast | sendClientMessage | getClientInfo =>
          exact .inr (.inr ⟨_, .refl _, trivial, rfl⟩)
  | starts unused valid success idle => exact absurd (running.symm.trans idle) (by simp)
  | terminates | startFails => exact absurd (running.symm.trans serving) (by simp)
  | stops | finishes => exact serving.elim
  | opens unused => exact .inr (.inr ⟨_, .opens (Kernel.not_open unused), trivial, rfl⟩)
  | closes belongs => exact .inr (.inr ⟨_, .closes belongs, trivial, rfl⟩)

theorem step_watching {before after : System} {label : Label} {events : List Event}
    (watching : before.Watching) (serving : Serving ⟨before, label, events⟩)
    (stepped : step before label = some (after, events)) : after.Watching := by
  obtain ⟨server, task, terminated⟩ := before
  cases task with
  | some task =>
      rcases serving_cases rfl serving stepped with ⟨_, _, moved, rfl⟩ |
        ⟨handle, pass, rfl, atCallback, rfl⟩ | ⟨kernel, others, -, rfl⟩
      · exact moved.watched watching
      · -- The server thread deletes clients in callbacks, where it registers none.
        rw [Watching] at watching ⊢
        simp only [atCallback] at watching ⊢
        exact watching.deleteClient handle
      · exact Watched.of_kernel watching others
  | none =>
      obtain ⟨empty, unconnected⟩ := watching
      cases step_changed stepped with
      | moves running => cases running
      | @calls caller call =>
          rw [perform_of_empty empty]
          exact ⟨empty, unconnected⟩
      | starts unused => exact .listening empty unconnected unused
      | terminates busy => exact absurd rfl busy
      | startFails opened =>
          refine ⟨empty, fun fd id found => ?_⟩
          rcases opened with rfl | ⟨socket, unused, rfl⟩
          · exact unconnected fd id found
          · exact (Kernel.Others.socket (Kernel.not_open unused)).unconnected unconnected fd id found
      | stops | finishes => exact serving.elim
      | opens unused =>
          exact ⟨empty, (Kernel.Others.opens (Kernel.not_open unused)).unconnected unconnected⟩
      | closes belongs => exact ⟨empty, (Kernel.Others.closes belongs).unconnected unconnected⟩

theorem run_keeps_watching {start final : System} {steps : List (Taken System Label Event)}
    (run : Run step start steps final) (watching : start.Watching)
    (serving : ∀ taken ∈ steps, Serving taken) : final.Watching :=
  run.invariant Serving Watching watching (fun _ _ _ _ watching => step_watching watching) serving

theorem run_watching {descriptors : List SOCKET} {steps : List (Taken System Label Event)}
    {final : System} (run : Run step (boot descriptors) steps final)
    (serving : ∀ taken ∈ steps, Serving taken) : final.Watching :=
  run_keeps_watching run (boot_watching descriptors) serving

/-- Whenever the thread is at the top of its loop, the watch set, the table and the open
descriptors agree. -/
theorem loop_consistent {descriptors : List SOCKET} {steps : List (Taken System Label Event)}
    {final : System} (run : Run step (boot descriptors) steps final)
    (serving : ∀ taken ∈ steps, Serving taken) (top : final.AtLoop) : Consistent final.server := by
  have watching := run_watching run serving
  obtain ⟨msg, atLoop⟩ := top.task
  rw [Watching, atLoop] at watching
  exact watching.consistent

/-- One client connects and is registered in the first pass. -/
theorem loop_consistent_accepted : ∃ steps final, Run step (boot [0, 1, 2]) steps final ∧
    4 ∈ final.server.clients ∧ Consistent final.server := by
  have computed : (exec step (boot [0, 1, 2]) (.start (listening 3) [] :: acceptPass 4 0)).any (fun outcome =>
        decide (∀ taken ∈ outcome.1, Serving taken) &&
          decide outcome.2.AtLoop && decide (4 ∈ outcome.2.server.clients)) = true := by
    decide +kernel
  obtain ⟨steps, final, run, checked⟩ := exists_run_of_exec computed
  simp only [Bool.and_eq_true, decide_eq_true_eq] at checked
  obtain ⟨⟨serving, top⟩, member⟩ := checked
  exact ⟨steps, final, run, member, loop_consistent run serving top⟩

end System

end ZmqPlayground
