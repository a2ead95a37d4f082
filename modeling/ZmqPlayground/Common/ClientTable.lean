import ZmqPlayground.Common.ServerTask

/-! The client table of a server and the connections of its process.

Every connection the process has accepted is in the table under its descriptor, but
for the one that the server thread has accepted and not entered yet.
-/

set_option autoImplicit false

namespace ZmqPlayground

open Library

namespace TcpServer

/-- A descriptor `Accept` has returned that is not in the table yet. -/
def Pc.arriving : Pc → Option SOCKET
  | .emplace _ clientfd _ _ => some clientfd
  | _ => none

/-- The table holds the open connections, each under its own descriptor. -/
structure Registered (server : TcpServer) (arriving : Option SOCKET) : Prop where
  stored : ∀ {handle client}, server.clients.lookup handle = some client → client.sockfd = handle
  connected : ∀ {handle}, handle ∈ server.clients →
    handle ≠ invalidSocket ∧ ∃ id, server.kernel.object handle = some (.connection id)
  registered : ∀ {fd id}, server.kernel.object fd = some (.connection id) →
    fd ∈ server.clients ∨ arriving = some fd
  arrives : ∀ {fd}, arriving = some fd → fd ∉ server.clients ∧ fd ≠ invalidSocket ∧
    ∃ id, server.kernel.object fd = some (.connection id)

variable {server : TcpServer} {arriving : Option SOCKET}

theorem Registered.of_others {after : TcpServer} (table : Registered server arriving)
    (clients : after.clients = server.clients) (others : server.kernel.Others after.kernel) :
    Registered after arriving := by
  refine ⟨?_, ?_, ?_, ?_⟩
  all_goals simp only [clients, others.connection_iff]
  · exact table.stored
  · exact table.connected
  · exact table.registered
  · exact table.arrives

theorem Registered.markDisconnected (table : Registered server arriving) (fd : SOCKET) :
    Registered (server.markDisconnected fd) arriving := by
  refine ⟨fun {handle client} found => ?_, ?_, ?_, ?_⟩
  · rw [TcpServer.markDisconnected, Table.lookup_modify] at found
    split at found
    · rename_i same
      obtain ⟨client, stored, rfl⟩ := Option.map_eq_some_iff.mp found
      rw [same]
      exact (table.stored stored : client.sockfd = fd)
    · exact table.stored found
  all_goals simp only [TcpServer.markDisconnected, Table.mem_modify]
  · exact table.connected
  · exact table.registered
  · exact table.arrives

theorem Registered.deleteClient_eq (table : Registered server arriving) {handle : ClientHandle}
    (member : handle ∈ server.clients) :
    server.deleteClient handle =
      ({ server with
          kernel := server.kernel.close handle
          fds := server.fds.erase handle
          clients := server.clients.erase handle }, true) := by
  obtain ⟨client, found⟩ := Table.exists_lookup member
  rw [deleteClient_of_lookup found, table.stored found]

theorem Registered.deleteClient (table : Registered server arriving) (handle : ClientHandle) :
    Registered (server.deleteClient handle).1 arriving := by
  by_cases member : handle ∈ server.clients
  · rw [table.deleteClient_eq member]
    refine ⟨fun {other client} stored => ?_, fun {other} stays => ?_, fun {fd id} connection => ?_,
      fun {fd} arrives => ?_⟩
    · rw [Table.lookup_erase] at stored
      split at stored
      · cases stored
      · exact table.stored stored
    · obtain ⟨different, old⟩ := AList.mem_erase.mp stays
      simpa [different] using table.connected old
    · rw [Kernel.object_close] at connection
      split at connection
      · cases connection
      · rename_i different
        exact (table.registered connection).imp_left fun old => AList.mem_erase.mpr ⟨different, old⟩
    · obtain ⟨absent, valid, connection⟩ := table.arrives arrives
      have different : fd ≠ handle := by
        rintro rfl
        exact absent member
      exact ⟨mt (fun old => (AList.mem_erase.mp old).2) absent, valid, by simpa [different] using connection⟩
  · rwa [deleteClient_of_not_mem member]

theorem Registered.unused_not_mem (table : Registered server arriving) {fd : SOCKET}
    (unused : ¬ server.kernel.IsOpen fd) : fd ∉ server.clients := by
  intro member
  obtain ⟨-, id, found⟩ := table.connected member
  rw [Kernel.not_open unused] at found
  cases found

theorem Registered.accept (table : Registered server none) {clientfd : SOCKET}
    (valid : clientfd ≠ -1) (unused : ¬ server.kernel.IsOpen clientfd) :
    Registered { server with kernel := server.kernel.accept clientfd } (some clientfd) := by
  refine ⟨table.stored, fun {handle} member => ?_, fun {fd id} connection => ?_, ?_⟩
  · obtain ⟨present, id, found⟩ := table.connected member
    exact ⟨present, id, Kernel.object_accept_of_open unused found⟩
  · rw [Kernel.object_accept] at connection
    split at connection
    · rename_i same
      exact .inr (by rw [same])
    · exact .inl ((table.registered connection).resolve_right (by simp))
  · rintro fd ⟨rfl⟩
    exact ⟨table.unused_not_mem unused, valid, server.kernel.connections, by simp⟩

theorem Registered.addClient {clientfd : SOCKET} (table : Registered server (some clientfd))
    (ip : Str) (port : UInt16) : Registered (server.addClient clientfd ip port) none := by
  obtain ⟨absent, valid, connection⟩ := table.arrives rfl
  rw [TcpServer.addClient, Table.emplace_of_not_mem absent]
  refine ⟨fun {handle client} found => ?_, fun {handle} member => ?_, fun {fd id} found => .inl ?_,
    nofun⟩
  · rw [Table.lookup_insert] at found
    split at found
    · rename_i same
      cases found
      exact same.symm
    · exact table.stored found
  · rcases (AList.mem_insert _).mp member with rfl | old
    · exact ⟨valid, connection⟩
    · exact table.connected old
  · rcases table.registered found with old | new
    · exact (AList.mem_insert _).mpr (.inr old)
    · cases new
      exact (AList.mem_insert _).mpr (.inl rfl)

theorem perform_of_empty (empty : server.clients = ∅) (call : Call) :
    (server.perform call).1 = server := by
  cases call with
  | deleteClient handle => exact congrArg Prod.fst (deleteClient_of_not_mem (by simp [empty]))
  | sendBcast | sendClientMessage | getClientInfo => rfl

theorem Registered.of_empty (empty : server.clients = ∅)
    (unconnected : ∀ fd id, server.kernel.object fd ≠ some (.connection id)) :
    Registered server none where
  stored := by simp [empty]
  connected := by simp [empty]
  registered := fun found => absurd found (unconnected _ _)
  arrives := nofun

@[simp] theorem sockfd_deleteClient (server : TcpServer) (handle : ClientHandle) :
    (server.deleteClient handle).1.sockfd = server.sockfd := by
  rw [deleteClient]
  split <;> rfl

section Moves
variable {msg : List Byte} {pc : Pc} {label : Label} {after : TcpServer} {task : Task}
  {events : List Event}

theorem Moved.registered (moved : Moved server msg pc label after task events)
    (table : Registered server pc.arriving) : Registered after task.pc.arriving := by
  cases moved with
  | recvFails | recvCloses => exact table.markDisconnected _
  | deletes => exact table.deleteClient _
  | accepts valid unused => exact table.accept valid unused
  | emplaces => exact table.addClient _ _
  | watches => exact ⟨table.stored, table.connected, table.registered, table.arrives⟩
  | _ => exact table

theorem later_deleteClient (server : TcpServer) (handle : ClientHandle) :
    server.kernel.Later (server.deleteClient handle).1.kernel := by
  rw [deleteClient]
  split
  · exact .close _ _
  · exact .refl _

theorem Moved.lasting (moved : Moved server msg pc label after task events) :
    after.sockfd = server.sockfd ∧ server.kernel.Later after.kernel := by
  cases moved with
  | deletes => exact ⟨sockfd_deleteClient _ _, later_deleteClient _ _⟩
  | accepts => exact ⟨rfl, .accept _ _⟩
  | _ => exact ⟨rfl, .refl _⟩

end Moves

end TcpServer

end ZmqPlayground
