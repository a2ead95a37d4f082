import ZmqPlayground.Common.Descriptors
import ZmqPlayground.Common.Sessions

/-! The calls that send to clients, among the other calls and the server thread.

A broadcast keeps the mutex while it sends, so it is one step. A message to a single
client is not: the client is looked up under the mutex and `Send` is called on its
descriptor without it, and other threads may take steps in between.
-/

set_option autoImplicit false

namespace ZmqPlayground

open Library
open Library.Runs

namespace TcpServer

def Pc.deleting : Pc → Option ClientHandle
  | .delete pass => some pass.fd
  | _ => none

theorem Moved.spares {server after : TcpServer} {msg : List Byte} {pc : Pc} {label : Label} {task : Task}
    {events : List Event} {handle : ClientHandle} (moved : Moved server msg pc label after task events)
    (table : Registered server pc.arriving) (member : handle ∈ server.clients)
    (spared : label = .serverTask → pc.deleting ≠ some handle) : Spares handle server after := by
  cases moved with
  | recvFails | recvCloses => exact .markDisconnected _ _ _
  | deletes =>
      apply Spares.deleteClient table
      rintro rfl
      exact spared rfl rfl
  | accepts valid unused => exact .accept unused
  | emplaces =>
      apply Spares.addClient
      rintro rfl
      exact (table.arrives rfl).1 member
  | watches => exact ⟨Iff.rfl, id, .refl _⟩
  | _ => exact .refl _ _

theorem closeSockets_later (server : TcpServer) : server.kernel.Later server.closeSockets.kernel := by
  have clients : ∀ (clients : List (Sigma fun _ : ClientHandle => Client)) (kernel : Kernel),
      kernel.Later (clients.foldl (fun kernel client => kernel.close client.2.sockfd) kernel) := by
    intro clients
    induction clients with
    | nil => exact Kernel.Later.refl
    | cons client rest ih => exact fun kernel => (Kernel.Later.close kernel _).trans (ih _)
  unfold closeSockets
  split
  · exact (clients _ _).trans (.close _ _)
  · exact clients _ _

end TcpServer

namespace System

open TcpServer

def Removes (system : System) (handle : ClientHandle) : Label → Prop
  | .call _ (.deleteClient other) => other = handle
  | .serverTask => system.task.bind (·.pc.deleting) = some handle
  | .finish => True
  | _ => False

instance (system : System) (handle : ClientHandle) (label : Label) : Decidable (system.Removes handle label) :=
  match label with
  | .call _ (.deleteClient other) => inferInstanceAs (Decidable (other = handle))
  | .serverTask => inferInstanceAs (Decidable (_ = _))
  | .finish => isTrue trivial
  | .call _ (.sendBcast _ _) | .call _ (.sendClientMessage _ _ _) | .call _ (.getClientInfo _)
  | .select _ _ | .recv _ _ | .accept _ _ _ | .returns | .start _ _ | .stop | .opens _ | .closes _ => isFalse id

variable {before after : System} {label : Label} {events : List Event} {handle : ClientHandle}

theorem start_spares {calls : StartCalls} {msg : List Byte}
    (stepped : step before (.start calls msg) = some (after, events)) :
    after.server.clients = before.server.clients ∧ before.server.kernel.Others after.server.kernel := by
  obtain ⟨same, -, unused, -⟩ := step_start stepped
  obtain ⟨clients, -, ⟨-, -, kernel⟩ | ⟨-, -, -, kernel⟩ | ⟨-, valid, -, kernel⟩⟩ :=
    start_descriptors calls before.server
  · rw [same, kernel]
    exact ⟨clients, .refl _⟩
  · rw [same, kernel]
    exact ⟨clients, .refl _⟩
  · rw [same, kernel]
    exact ⟨clients, .socket (Kernel.not_open (unused.resolve_left valid))⟩

theorem step_later (stepped : step before label = some (after, events)) :
    before.server.kernel.Later after.server.kernel := by
  cases step_changed stepped with
  | moves _ moved => exact moved.lasting.2
  | @calls caller call =>
      cases call with
      | deleteClient other => exact later_deleteClient _ other
      | sendBcast | sendClientMessage | getClientInfo => exact .refl _
  | starts | terminates | startFails => exact .others (start_spares stepped).2
  | stops => exact .refl _
  | finishes => exact closeSockets_later _
  | opens unused => exact .others (.opens (Kernel.not_open unused))
  | closes belongs => exact .others (.closes belongs)

theorem step_spares (table : Registered before.server before.arriving) (member : handle ∈ before.server.clients)
    (spared : ¬ before.Removes handle label) (stepped : step before label = some (after, events)) :
    Spares handle before.server after.server := by
  cases step_changed stepped with
  | @moves task _ _ _ _ running moved =>
      have arriving : before.arriving = task.pc.arriving := by rw [System.arriving, running, Option.bind_some]
      rw [arriving] at table
      apply moved.spares table member
      rintro rfl deleting
      apply spared
      rw [Removes, running]
      exact deleting
  | @calls caller call =>
      cases call with
      | deleteClient other => exact .deleteClient table (Ne.symm spared)
      | sendBcast | sendClientMessage | getClientInfo => exact .refl _ _
  | starts | terminates | startFails =>
      obtain ⟨clients, others⟩ := start_spares stepped
      exact .of_others clients others
  | stops => exact .of_others rfl (.refl _)
  | finishes => exact absurd trivial spared
  | opens unused => exact .of_others rfl (.opens (Kernel.not_open unused))
  | closes belongs => exact .of_others rfl (.closes belongs)

theorem step_removed (table : Registered before.server before.arriving) (member : handle ∈ before.server.clients)
    (removed : before.Removes handle label) (stepped : step before label = some (after, events)) :
    after.server.kernel.object handle = none := by
  have deleted : (before.server.deleteClient handle).1.kernel.object handle = none := by
    rw [table.deleteClient_eq member]
    simp
  cases step_changed stepped with
  | @moves task _ _ _ _ running moved =>
      have deleting : label = .serverTask → task.pc.deleting = some handle := by
        rintro rfl
        rwa [Removes, running] at removed
      obtain ⟨pc, msg⟩ := task
      cases moved with
      | deletes =>
          obtain rfl := Option.some.inj (deleting rfl)
          exact deleted
      | exits | selects | ends | skips | finds | misses | emplaces | watches | publishes =>
          cases deleting rfl
      | retries | reports | recvFails | recvCloses | receives | acceptFails | accepts | returns =>
          exact removed.elim
  | @calls caller call =>
      cases call with
      | deleteClient other =>
          obtain rfl : other = handle := removed
          exact deleted
      | sendBcast | sendClientMessage | getClientInfo => exact removed.elim
  | starts | terminates | startFails | stops | opens | closes => exact removed.elim
  | finishes =>
      have closing : handle ∈ before.server.closing := by
        rw [table.closing_eq]
        exact List.mem_append_left _ (AList.mem_keys.mp member)
      exact (object_closeSockets _ _).trans (if_pos closing)

end System

/-- What `Send` returns for a message: an error, or how many of its bytes it has taken. -/
abbrev SendResult (msg : List Byte) := { sent : Sent // sent.numBytesSent ≤ msg.length }

/-- A call of `Send`: what the descriptor of the client referred to when the client was looked up, and
what it refers to now. -/
structure Sending where
  handle : ClientHandle
  expected : Option Object
  object : Option Object
  msg : List Byte
  result : SendResult msg
  deriving DecidableEq

/-- The call is made on the open connection it is meant for. -/
def Sending.Right (sending : Sending) : Prop :=
  sending.object = sending.expected ∧ ∃ connection, sending.object = some (.connection connection)

/-- A client that `sendClientMessage` has found and not sent to yet. -/
structure Lookup where
  handle : ClientHandle
  client : Client
  object : Option Object
  msg : List Byte
  deriving DecidableEq

inductive Thread where
  | serverTask
  | other (id : ℕ)
  deriving DecidableEq

/-- The server, and the threads that are within `sendClientMessage`. -/
structure Senders where
  system : System
  looked : Table Thread Lookup
  deriving DecidableEq

def Client.sendings (client : Client) (kernel : Kernel) (handle : ClientHandle) (expected : Option Object)
    (msg : List Byte) (result : SendResult msg) : List Sending :=
  if client.sockfd ≠ invalidSocket then [⟨handle, expected, kernel.object client.sockfd, msg, result⟩]
  else []

/-- The calls of `Send` that `sendBcast` makes: none after the first that fails. -/
def TcpServer.sendings (server : TcpServer) (msg : List Byte) :
    List (ClientHandle × SendResult msg) → List Sending
  | [] => []
  | (handle, result) :: rest =>
      match server.clients.lookup handle with
      | some client =>
          client.sendings server.kernel handle (server.kernel.object client.sockfd) msg result ++
            if (client.sendMsg msg result).success then server.sendings msg rest else []
      | none => server.sendings msg rest

namespace Senders

inductive Event where
  | server (event : TcpServer.Event)
  /-- A sending operation returns, having called `Send`. -/
  | sends (sendings : List Sending) (ret : SocketRet)
  deriving DecidableEq

inductive Label where
  | system (label : TcpServer.Label)
  | sendBcast (thread : Thread) (msg : List Byte) (results : List (ClientHandle × SendResult msg))
  /-- `sendClientMessage` up to the end of its critical section. -/
  | lookUp (thread : Thread) (clientId : ClientHandle) (msg : List Byte)
  /-- The rest of it. -/
  | send (thread : Thread) (msg : List Byte) (result : SendResult msg)

def boot (descriptors : List SOCKET) : Senders := ⟨.boot descriptors, ∅⟩

/-- A thread makes one call at a time, the server thread from its callbacks. -/
def Free (senders : Senders) (thread : Thread) : Prop :=
  thread ∉ senders.looked ∧ (thread = .serverTask → senders.system.inCallback)

instance (senders : Senders) (thread : Thread) : Decidable (senders.Free thread) :=
  inferInstanceAs (Decidable (_ ∧ _))

/-- The sending operations have labels of their own, and until one is over the server thread stays in
its callback and calls nothing else. -/
def allows (senders : Senders) : TcpServer.Label → Bool
  | .call _ (.sendBcast _ _) | .call _ (.sendClientMessage _ _ _) => false
  | .returns | .call .serverTask _ => Thread.serverTask ∉ senders.looked
  | _ => true

def step : Step Senders Label Event := fun senders label =>
  let server := senders.system.server
  match label with
  | .system label =>
      if senders.allows label then do
        let (system, events) ← System.step senders.system label
        some ({ senders with system }, events.map .server)
      else none
  | .sendBcast thread msg results =>
      if senders.system.terminated = false ∧ senders.Free thread ∧
          (results.map Prod.fst).Perm server.clients.keys then
        some (senders, [.sends (server.sendings msg results)
          (server.sendBcast msg (results.map fun (handle, result) => (handle, result.val)))])
      else none
  | .lookUp thread clientId msg =>
      if senders.system.terminated = false ∧ senders.Free thread then
        match server.clients.lookup clientId with
        | some client =>
            let found := ⟨clientId, client, server.kernel.object client.sockfd, msg⟩
            some ({ senders with looked := senders.looked.insert thread found }, [])
        | none => some (senders, [.sends [] (server.sendClientMessage clientId msg ⟨0, 0⟩)])
      else none
  | .send thread msg result =>
      match senders.looked.lookup thread with
      | some ⟨handle, client, object, expected⟩ =>
          if senders.system.terminated = false ∧ expected = msg then
            some ({ senders with looked := senders.looked.erase thread },
              [.sends (client.sendings server.kernel handle object msg result) (client.sendMsg msg result)])
          else none
      | none => none

inductive Changed (senders : Senders) : Label → Senders → List Event → Prop where
  | system {label : TcpServer.Label} {system : System} {events : List TcpServer.Event}
      (stepped : System.step senders.system label = some (system, events)) :
      Changed senders (.system label) { senders with system } (events.map .server)
  | sendBcast {thread : Thread} {msg : List Byte} {results : List (ClientHandle × SendResult msg)} :
      Changed senders (.sendBcast thread msg results) senders
        [.sends (senders.system.server.sendings msg results)
          (senders.system.server.sendBcast msg (results.map fun (handle, result) => (handle, result.val)))]
  | finds {thread : Thread} {clientId : ClientHandle} {msg : List Byte} {client : Client}
      (idle : thread ∉ senders.looked)
      (found : senders.system.server.clients.lookup clientId = some client) :
      Changed senders (.lookUp thread clientId msg)
        { senders with
          looked := senders.looked.insert thread
            ⟨clientId, client, senders.system.server.kernel.object client.sockfd, msg⟩ } []
  | misses {thread : Thread} {clientId : ClientHandle} {msg : List Byte} {ret : SocketRet} :
      Changed senders (.lookUp thread clientId msg) senders [.sends [] ret]
  | sends {thread : Thread} {found : Lookup} {result : SendResult found.msg}
      (looked : senders.looked.lookup thread = some found) :
      Changed senders (.send thread found.msg result)
        { senders with looked := senders.looked.erase thread }
        [.sends (found.client.sendings senders.system.server.kernel found.handle found.object found.msg result)
          (found.client.sendMsg found.msg result)]

theorem step_changed {before after : Senders} {label : Label} {events : List Event}
    (stepped : step before label = some (after, events)) : Changed before label after events := by
  cases label with
  | system label =>
      simp only [step] at stepped
      split at stepped
      · simp only [Option.bind_eq_bind, Option.bind_eq_some_iff, Option.some.injEq, Prod.mk.injEq,
          Prod.exists] at stepped
        obtain ⟨system, emitted, moved, rfl, rfl⟩ := stepped
        exact .system moved
      · cases stepped
  | sendBcast thread msg results =>
      simp only [step] at stepped
      split at stepped <;> cases stepped
      exact .sendBcast
  | lookUp thread clientId msg =>
      simp only [step] at stepped
      split at stepped
      · rename_i allowed
        split at stepped <;> cases stepped
        · rename_i found
          exact .finds allowed.2.1 found
        · exact .misses
      · cases stepped
  | send thread msg result =>
      simp only [step] at stepped
      split at stepped
      · rename_i looked
        split at stepped <;> cases stepped
        rename_i same
        obtain rfl := same.2
        exact .sends looked
      · cases stepped

def Event.sendings : Event → List Sending
  | .sends sendings _ => sendings
  | .server _ => []

def sendings (events : List Event) : List Sending := events.flatMap Event.sendings

/-- A client is removed that a thread has found and not sent to yet. -/
def Undercuts (taken : Taken Senders Label Event) : Prop :=
  match taken.label with
  | .system label => ∃ found ∈ taken.before.looked.entries,
      found.2.handle ∈ taken.before.system.server.clients ∧
        taken.before.system.Removes found.2.handle label
  | _ => False

instance (taken : Taken Senders Label Event) : Decidable (Undercuts taken) :=
  match taken with
  | ⟨before, .system label, _⟩ => inferInstanceAs (Decidable (∃ found ∈ before.looked.entries,
      found.2.handle ∈ before.system.server.clients ∧ before.system.Removes found.2.handle label))
  | ⟨_, .sendBcast _ _ _, _⟩ | ⟨_, .lookUp _ _ _, _⟩ | ⟨_, .send _ _ _, _⟩ => isFalse id

structure Found (connection : ℕ) (server : TcpServer) (found : Lookup) : Prop where
  stored : found.client.sockfd = found.handle
  valid : found.handle ≠ invalidSocket
  object : found.object = some (.connection connection)
  counted : connection < server.kernel.connections

structure Present (connection : ℕ) (server : TcpServer) (found : Lookup) : Prop
    extends Found connection server found where
  member : found.handle ∈ server.clients
  connected : server.kernel.object found.handle = some (.connection connection)

def AllFound (holds : TcpServer → Lookup → Prop) (senders : Senders) : Prop :=
  ∀ thread found, senders.looked.lookup thread = some found → holds senders.system.server found

section Step
variable {before after : Senders} {label : Label} {events : List Event}

theorem present_of_lookup {server : TcpServer} {arriving : Option SOCKET}
    (table : TcpServer.Registered server arriving) {clientId : ClientHandle} {client : Client}
    (found : server.clients.lookup clientId = some client) (msg : List Byte) :
    ∃ connection, Present connection server ⟨clientId, client, server.kernel.object client.sockfd, msg⟩ := by
  have member := Table.mem_of_lookup found
  obtain ⟨valid, connection, object⟩ := table.connected member
  have stored := table.stored found
  exact ⟨connection, ⟨⟨stored, valid, stored ▸ object, server.kernel.counted _ _ object⟩, member, object⟩⟩

theorem AllFound.step {holds : TcpServer → Lookup → Prop} (all : AllFound holds before)
    (finds : ∀ {clientId client msg}, before.system.server.clients.lookup clientId = some client →
      holds before.system.server
        ⟨clientId, client, before.system.server.kernel.object client.sockfd, msg⟩)
    (stays : ∀ {thread found called system emitted}, before.looked.lookup thread = some found →
      label = .system called → System.step before.system called = some (system, emitted) →
      holds before.system.server found → holds system.server found)
    (stepped : step before label = some (after, events)) : AllFound holds after := by
  intro thread found looked
  cases step_changed stepped with
  | system moved => exact stays looked rfl moved (all _ _ looked)
  | sendBcast | misses => exact all _ _ looked
  | finds idle client =>
      rw [Table.lookup_insert] at looked
      split at looked
      · cases looked
        exact finds client
      · exact all _ _ looked
  | sends =>
      rw [Table.lookup_erase] at looked
      split at looked
      · cases looked
      · exact all _ _ looked

structure Followed (senders : Senders) : Prop where
  kept : ∃ past, System.Kept past senders.system
  looked : AllFound (fun server found => ∃ connection, Found connection server found) senders

theorem Followed.table (followed : Followed before) :
    TcpServer.Registered before.system.server before.system.arriving := by
  obtain ⟨past, kept⟩ := followed.kept
  exact kept.table

theorem step_followed (followed : Followed before) (stepped : step before label = some (after, events)) :
    Followed after := by
  constructor
  · obtain ⟨past, kept⟩ := followed.kept
    cases step_changed stepped with
    | system moved => exact ⟨_, (System.step_kept kept moved).1⟩
    | _ => exact ⟨past, kept⟩
  · refine followed.looked.step ?_ ?_ stepped
    · intro clientId client msg found
      obtain ⟨connection, present⟩ := present_of_lookup followed.table found msg
      exact ⟨connection, present.toFound⟩
    · rintro thread found called system emitted looked rfl moved ⟨connection, known⟩
      have counts := (System.step_later moved).counts
      exact ⟨connection, known.stored, known.valid, known.object, known.counted.trans_le counts⟩

theorem step_present (followed : Followed before)
    (all : AllFound (fun server found => ∃ connection, Present connection server found) before)
    (unhurt : ¬ Undercuts ⟨before, label, events⟩) (stepped : step before label = some (after, events)) :
    AllFound (fun server found => ∃ connection, Present connection server found) after := by
  refine all.step ?_ ?_ stepped
  · exact fun found => present_of_lookup followed.table found _
  · rintro thread found called system emitted looked rfl moved ⟨connection, present⟩
    have spared : ¬ before.system.Removes found.handle called := by
      intro removed
      exact unhurt ⟨⟨thread, found⟩, AList.mem_lookup_iff.mp looked, present.member, removed⟩
    have spares := System.step_spares followed.table present.member spared moved
    have counts := spares.later.counts
    exact ⟨connection, ⟨present.stored, present.valid, present.object, present.counted.trans_le counts⟩,
      spares.members.mpr present.member, spares.object present.connected⟩

theorem broadcast_right {server : TcpServer} {arriving : Option SOCKET}
    (table : TcpServer.Registered server arriving) (msg : List Byte)
    (results : List (ClientHandle × SendResult msg)) :
    ∀ sending ∈ server.sendings msg results, sending.Right := by
  -- The look-up and the call of `Send` are under one lock, so that the client is still there.
  induction results with
  | nil => simp [TcpServer.sendings]
  | cons first rest ih =>
      intro sending member
      rw [TcpServer.sendings] at member
      split at member
      · rename_i client found
        rcases List.mem_append.mp member with own | later
        · obtain ⟨-, connection, object⟩ := table.connected (Table.mem_of_lookup found)
          rw [Client.sendings] at own
          split at own
          · obtain rfl := List.mem_singleton.mp own
            exact ⟨rfl, connection, table.stored found ▸ object⟩
          · cases own
        · split at later
          · exact ih sending later
          · cases later
      · exact ih sending member

theorem step_right (followed : Followed before)
    (all : AllFound (fun server found => ∃ connection, Present connection server found) before)
    (stepped : step before label = some (after, events)) : ∀ sending ∈ sendings events, sending.Right := by
  cases step_changed stepped with
  | system => simp [sendings, List.flatMap_map, Event.sendings]
  | sendBcast => simpa [sendings, Event.sendings] using broadcast_right followed.table _ _
  | finds | misses => simp [sendings, Event.sendings]
  | sends looked =>
      obtain ⟨connection, present⟩ := all _ _ looked
      intro sending member
      simp only [sendings, Event.sendings, List.flatMap_cons, List.flatMap_nil, List.append_nil,
        Client.sendings] at member
      split at member
      · obtain rfl := List.mem_singleton.mp member
        refine ⟨?_, connection, ?_⟩
        · rw [present.stored, present.connected, present.object]
        · rw [present.stored, present.connected]
      · cases member

/-- What a thread has found has been closed, and it has not sent to it yet. -/
def Lost (thread : Thread) (senders : Senders) : Prop :=
  ∃ found connection, senders.looked.lookup thread = some found ∧
    Found connection senders.system.server found ∧
    senders.system.server.kernel.Gone found.handle connection

theorem step_undercuts (followed : Followed before) (hurt : Undercuts ⟨before, label, events⟩)
    (stepped : step before label = some (after, events)) : ∃ thread, Lost thread after := by
  unfold Undercuts at hurt
  cases step_changed stepped with
  | system moved =>
      obtain ⟨⟨thread, found⟩, entry, member, removed⟩ := hurt
      have looked : before.looked.lookup thread = some found := AList.mem_lookup_iff.mpr entry
      obtain ⟨connection, known⟩ := followed.looked _ _ looked
      have counts := known.counted.trans_le (System.step_later moved).counts
      refine ⟨thread, found, connection, looked, ⟨known.stored, known.valid, known.object, counts⟩, ?_, counts⟩
      rw [System.step_removed followed.table member removed moved]
      nofun
  | sendBcast | finds | misses | sends => exact hurt.elim

theorem step_lost {thread : Thread} (lost : Lost thread before)
    (stepped : step before label = some (after, events)) :
    Lost thread after ∨ ∃ sending ∈ sendings events, ¬ sending.Right := by
  obtain ⟨found, connection, looked, known, gone⟩ := lost
  cases step_changed stepped with
  | system moved =>
      have later := System.step_later moved
      exact .inl ⟨found, connection, looked,
        ⟨known.stored, known.valid, known.object, known.counted.trans_le later.counts⟩, later.gone gone⟩
  | sendBcast | misses => exact .inl ⟨found, connection, looked, known, gone⟩
  | @finds other _ _ _ idle =>
      refine .inl ⟨found, connection, ?_, known, gone⟩
      rw [Table.lookup_insert, if_neg]
      · exact looked
      · rintro rfl
        exact idle (Table.mem_of_lookup looked)
  | @sends other _ result here =>
      by_cases own : thread = other
      · subst own
        obtain rfl := Option.some.inj (looked.symm.trans here)
        have valid : found.client.sockfd ≠ invalidSocket := known.stored ▸ known.valid
        refine .inr ⟨⟨found.handle, found.object, before.system.server.kernel.object found.client.sockfd,
          found.msg, result⟩, ?_, ?_⟩
        · simp [sendings, Event.sendings, Client.sendings, valid]
        · intro right
          apply gone.1
          rw [← known.stored, ← known.object]
          exact right.1
      · refine .inl ⟨found, connection, ?_, known, gone⟩
        rw [Table.lookup_erase, if_neg own]
        exact looked

end Step

theorem sendings_append (first rest : List Event) : sendings (first ++ rest) = sendings first ++ sendings rest :=
  List.flatMap_append

theorem run_followed {descriptors : List SOCKET} {steps : List (Taken Senders Label Event)} {final : Senders}
    (run : Run step (boot descriptors) steps final) : Followed final := by
  have kept := (System.run_kept (.nil : Run System.step (System.boot descriptors) [] _)).1
  refine run.always Followed ⟨⟨_, kept⟩, ?_⟩ fun _ _ _ _ => step_followed
  intro thread found looked
  simp [boot] at looked

theorem run_lost {start final : Senders} {steps : List (Taken Senders Label Event)} {thread : Thread}
    (run : Run step start steps final) (lost : Lost thread start) :
    Lost thread final ∨ ∃ sending ∈ sendings (trace steps), ¬ sending.Right := by
  induction run with
  | nil => exact .inl lost
  | snoc _ stepped ih =>
      rw [trace_append, trace_singleton, sendings_append]
      rcases ih with still | ⟨sending, member, wrong⟩
      · refine (step_lost still stepped).imp_right fun ⟨sending, member, wrong⟩ => ?_
        exact ⟨sending, List.mem_append_right _ member, wrong⟩
      · exact .inr ⟨sending, List.mem_append_left _ member, wrong⟩

/-- Every `Send` is made on the open connection that was looked up, if no client is removed while a
thread has found it and not sent to it yet; and only then, when no thread is left within a call. -/
theorem sends_right_iff {descriptors : List SOCKET} {steps : List (Taken Senders Label Event)}
    {final : Senders} (run : Run step (boot descriptors) steps final) :
    ((∀ taken ∈ steps, ¬ Undercuts taken) → ∀ sending ∈ sendings (trace steps), sending.Right) ∧
      ((∀ thread, thread ∉ final.looked) → (∀ sending ∈ sendings (trace steps), sending.Right) →
        ∀ taken ∈ steps, ¬ Undercuts taken) := by
  constructor
  · intro unhurt
    have none : AllFound (fun server found => ∃ connection, Present connection server found)
        (boot descriptors) := by
      intro thread found looked
      simp [boot] at looked
    refine (run.history (fun taken => ¬ Undercuts taken) (fun past senders =>
      Followed senders ∧ AllFound (fun server found => ∃ connection, Present connection server found) senders ∧
        ∀ sending ∈ sendings past, sending.Right) ⟨run_followed .nil, none, by simp [sendings]⟩ ?_ unhurt).2.2
    intro past before label after events ⟨followed, all, right⟩ unhurt stepped
    refine ⟨step_followed followed stepped, step_present followed all unhurt stepped, ?_⟩
    intro sending member
    rw [sendings_append, List.mem_append] at member
    exact member.elim (right sending) (step_right followed all stepped sending)
  · intro empty right taken member hurt
    obtain ⟨first, rest, after, rfl, before, stepped, later⟩ := run.reached member
    obtain ⟨thread, lost⟩ := step_undercuts (run_followed before) hurt stepped
    rcases run_lost later lost with ⟨found, _, looked, -⟩ | ⟨sending, sent, wrong⟩
    · exact empty thread (Table.mem_of_lookup looked)
    · apply wrong (right sending _)
      have split : first ++ taken :: rest = first ++ [taken] ++ rest := by simp
      rw [split, trace_append, sendings_append]
      exact List.mem_append_right _ sent

/-- A message to a single client and a broadcast, with nobody removed. -/
theorem sends_right_iff_sent : ∃ steps final, Run step (boot [0, 1, 2]) steps final ∧
    (sendings (trace steps)).length = 2 ∧ (∀ sending ∈ sendings (trace steps), sending.Right) ∧
      ∀ taken ∈ steps, ¬ Undercuts taken := by
  have computed : (exec step (boot [0, 1, 2])
      ((.start (System.listening 3) [] :: System.acceptPass 4 0).map .system ++
        [.lookUp (.other 0) 4 [7], .send (.other 0) [7] ⟨⟨1, 0⟩, by decide⟩,
          .sendBcast (.other 0) [8] [(4, ⟨⟨1, 0⟩, by decide⟩)]])).any (fun (steps, final) =>
        decide (∀ taken ∈ steps, ¬ Undercuts taken) && decide (final.looked.keys = []) &&
          decide ((sendings (trace steps)).length = 2)) = true := by
    decide +kernel
  obtain ⟨steps, final, run, checked⟩ := exists_run_of_exec computed
  simp only [Bool.and_eq_true, decide_eq_true_eq] at checked
  obtain ⟨⟨unhurt, idle⟩, two⟩ := checked
  have left : ∀ thread, thread ∉ final.looked := by
    intro thread found
    rw [AList.mem_keys, idle] at found
    cases found
  have right := (sends_right_iff run).1 unhurt
  exact ⟨steps, final, run, two, right, (sends_right_iff run).2 left right⟩

/-- A client is deleted after it has been looked up, and its descriptor goes to the next one, which
gets the message. -/
theorem sent_elsewhere : ∃ steps final, Run step (boot [0, 1, 2]) steps final ∧
    ∃ sending ∈ sendings (trace steps), sending.handle = 4 ∧ sending.expected = some (.connection 0) ∧
      sending.object = some (.connection 1) ∧ ¬ sending.Right := by
  have computed : (exec step (boot [0, 1, 2])
      ((.start (System.listening 3) [] :: System.acceptPass 4 0).map .system ++
        [.lookUp (.other 0) 4 [7], .system (.call .otherThread (.deleteClient 4))] ++
        (System.acceptPass 4 0).map .system ++ [.send (.other 0) [7] ⟨⟨1, 0⟩, by decide⟩])).any
      (fun (steps, _) => (sendings (trace steps)).any fun sending => decide (sending.handle = 4 ∧
        sending.expected = some (.connection 0) ∧ sending.object = some (.connection 1))) = true := by
    decide +kernel
  obtain ⟨steps, final, run, checked⟩ := exists_run_of_exec computed
  simp only [List.any_eq_true, decide_eq_true_eq] at checked
  obtain ⟨sending, member, handle, expected, object⟩ := checked
  refine ⟨steps, final, run, sending, member, handle, expected, object, fun right => ?_⟩
  have same := right.1
  rw [expected, object] at same
  cases same

end Senders

end ZmqPlayground
