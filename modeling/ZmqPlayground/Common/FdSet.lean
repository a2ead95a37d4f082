import ZmqPlayground.Common.Descriptors

/-! The indices with which the server accesses its descriptor sets.

An `fd_set` is an array of bits, which `FD_SET`, `FD_CLR` and `FD_ISSET` index without a
check. The server uses every descriptor it gets as an index, and the loop over a
reported set every number up to the largest of them.
-/

set_option autoImplicit false

namespace ZmqPlayground

open Library
open Library.Runs

/-- The number of descriptors an `fd_set` has room for. -/
def fdSetSize : Int := 1024

def InRange (fd : SOCKET) : Prop := 0 ≤ fd ∧ fd < fdSetSize

instance (fd : SOCKET) : Decidable (InRange fd) := inferInstanceAs (Decidable (_ ∧ _))

namespace TcpServer

def cleared (handle : ClientHandle) (server : TcpServer) : List SOCKET :=
  match server.clients.lookup handle with
  | some client => [client.sockfd]
  | none => []

/-- The descriptors of the clients are within an `fd_set`. -/
def Fits (server : TcpServer) : Prop :=
  ∀ handle client, server.clients.lookup handle = some client → InRange client.sockfd

variable {server : TcpServer}

theorem Fits.of_same {after : TcpServer} (fits : Fits server) (clients : after.clients = server.clients) :
    Fits after :=
  fun handle client found => fits handle client (clients ▸ found)

theorem Fits.markDisconnected (fits : Fits server) (fd : SOCKET) : Fits (server.markDisconnected fd) := by
  intro handle client found
  rw [TcpServer.markDisconnected, Table.lookup_modify] at found
  split at found
  · obtain ⟨old, stored, rfl⟩ := Option.map_eq_some_iff.mp found
    exact (fits _ old stored : InRange old.sockfd)
  · exact fits handle client found

theorem Fits.addClient (fits : Fits server) {clientfd : SOCKET} (inRange : InRange clientfd) (ip : Str)
    (port : UInt16) : Fits (server.addClient clientfd ip port) := by
  intro handle client found
  rw [TcpServer.addClient, Table.emplace] at found
  split at found
  · exact fits handle client found
  · rw [Table.lookup_insert] at found
    split at found
    · cases found
      exact inRange
    · exact fits handle client found

theorem Fits.deleteClient (fits : Fits server) (handle : ClientHandle) : Fits (server.deleteClient handle).1 := by
  rw [TcpServer.deleteClient]
  split
  · intro other client found
    rw [Table.lookup_erase] at found
    split at found
    · cases found
    · exact fits other client found
  · exact fits

theorem Fits.cleared (fits : Fits server) {handle : ClientHandle} {fd : SOCKET}
    (member : fd ∈ server.cleared handle) : InRange fd := by
  rw [TcpServer.cleared] at member
  split at member
  · rename_i found
    rw [List.mem_singleton.mp member]
    exact fits handle _ found
  · cases member

theorem foldl_max_lt {clients : List (Sigma fun _ : ClientHandle => Client)} {maxfd bound : Int}
    (first : maxfd < bound) (others : ∀ client ∈ clients, client.2.sockfd < bound) :
    clients.foldl (fun maxfd client => max maxfd client.2.sockfd) maxfd < bound := by
  induction clients generalizing maxfd with
  | nil => exact first
  | cons client rest ih =>
      apply ih (max_lt first (others client List.mem_cons_self))
      exact fun other member => others other (List.mem_cons_of_mem _ member)

theorem Fits.findMaxFd_le (fits : Fits server) (sockfd : server.sockfd < fdSetSize) :
    server.findMaxFd ≤ fdSetSize := by
  apply Int.add_one_le_of_lt
  apply foldl_max_lt sockfd
  exact fun client member => (fits client.1 client.2 (AList.mem_lookup_iff.mpr member)).2

def Pass.Fits (pass : Pass) : Prop := 0 ≤ pass.fd ∧ pass.maxfds ≤ fdSetSize

theorem Pass.Fits.next {pass : Pass} (fits : pass.Fits) : pass.next.Fits :=
  ⟨Int.le_add_one fits.1, fits.2⟩

def Pc.Fits : Pc → Prop
  | .loop | .exited => True
  | .select maxfds _ => maxfds ≤ fdSetSize
  | .scan pass | .recv pass | .delete pass | .accept pass | .publish pass _ | .callback pass => pass.Fits
  | .emplace pass clientfd _ _ | .watch pass clientfd => pass.Fits ∧ InRange clientfd

def Pc.accepted : Pc → Option SOCKET
  | .emplace _ clientfd _ _ | .watch _ clientfd => some clientfd
  | _ => none

def Label.returned : Label → List SOCKET
  | .start calls _ => if calls.initResult = 0 ∧ calls.socket ≠ invalidSocket then [calls.socket] else []
  | .accept clientfd _ _ => if clientfd ≠ invalidSocket then [clientfd] else []
  | _ => []

theorem Label.invalid_not_returned (label : Label) : invalidSocket ∉ label.returned := by
  cases label with
  | start =>
      rw [Label.returned]
      split
      · rename_i valid
        exact fun member => valid.2 (List.mem_singleton.mp member).symm
      · exact List.not_mem_nil
  | accept =>
      rw [Label.returned]
      split
      · rename_i valid
        exact fun member => valid (List.mem_singleton.mp member).symm
      · exact List.not_mem_nil
  | _ => exact List.not_mem_nil

section Moved
variable {msg : List Byte} {pc : Pc} {label : Label} {after : TcpServer} {task : Task} {events : List Event}

theorem Moved.fits (moved : Moved server msg pc label after task events) (fits : Fits server)
    (sockfd : server.sockfd < fdSetSize) (local_fits : pc.Fits) (returned : ∀ fd ∈ label.returned, InRange fd) :
    Fits after ∧ after.sockfd < fdSetSize ∧ task.pc.Fits := by
  cases moved with
  | exits | retries | ends => exact ⟨fits, sockfd, trivial⟩
  | selects => exact ⟨fits, sockfd, fits.findMaxFd_le sockfd⟩
  | reports => exact ⟨fits, sockfd, le_refl 0, local_fits⟩
  | skips => exact ⟨fits, sockfd, local_fits.next⟩
  | finds | misses | receives | publishes => exact ⟨fits, sockfd, local_fits⟩
  | recvFails => exact ⟨fits.markDisconnected _, sockfd, local_fits.next⟩
  | recvCloses => exact ⟨fits.markDisconnected _, sockfd, local_fits⟩
  | deletes => exact ⟨fits.deleteClient _, by rwa [TcpServer.sockfd_deleteClient], local_fits⟩
  | acceptFails | returns => exact ⟨fits, sockfd, local_fits.next⟩
  | @accepts pass clientfd _ _ valid =>
      have inRange : InRange clientfd := returned clientfd (by simp [Label.returned, invalidSocket, valid])
      exact ⟨fits.of_same rfl, sockfd, local_fits, inRange⟩
  | emplaces => exact ⟨fits.addClient local_fits.2 _ _, sockfd, local_fits⟩
  | watches => exact ⟨fits.of_same rfl, sockfd, local_fits.1⟩

theorem Moved.not_exited (moved : Moved server msg pc label after task events) : pc ≠ .exited := by
  rintro rfl
  cases moved

end Moved

end TcpServer

namespace System

open TcpServer

/-- The indices of `FD_SET`, `FD_CLR` and `FD_ISSET` in a step. -/
def indices (system : System) : Label → List SOCKET
  | .start calls _ => if (system.server.start calls).2.success then [(system.server.start calls).1.sockfd] else []
  | .call _ (.deleteClient handle) => system.server.cleared handle
  | .serverTask => match system.task with
      | some ⟨.scan pass, _⟩ => if pass.fd < pass.maxfds then [pass.fd] else []
      | some ⟨.delete pass, _⟩ => system.server.cleared pass.fd
      | some ⟨.watch _ clientfd, _⟩ => [clientfd]
      | _ => []
  | _ => []

/-- The thread has not come to its end, so that its loop goes up to `m_sockfd` once more. -/
def looping (system : System) : Bool := system.task.any fun task => task.pc ≠ .exited

def accepted (system : System) : Option SOCKET := system.task.bind (·.pc.accepted)

/-- The descriptors that become indices: of a start if it succeeds, or is made while the thread is still in its
loop, and of each client that is accepted. -/
def entered (system : System) : Label → List SOCKET
  | .start calls msg =>
      if (system.server.start calls).2.success ∨ system.looping then (Label.start calls msg).returned else []
  | label => label.returned

structure Fits (system : System) : Prop where
  server : system.server.Fits
  task : ∀ task ∈ system.task, task.pc ≠ .exited → system.server.sockfd < fdSetSize ∧ task.pc.Fits

variable {before after : System} {label : Label} {events : List Event}

theorem entered_of_moved {server : TcpServer} {msg : List Byte} {pc : Pc} {task : Task}
    (moved : Moved before.server msg pc label server task events) : before.entered label = label.returned := by
  cases moved <;> rfl

theorem mem_entered {calls : StartCalls} {msg : List Byte} (initialized : calls.initResult = 0)
    (valid : calls.socket ≠ invalidSocket)
    (used : (before.server.start calls).2.success = true ∨ before.looping = true) :
    calls.socket ∈ before.entered (.start calls msg) := by
  rw [entered, if_pos used]
  simp [Label.returned, initialized, valid]

theorem start_inRange {calls : StartCalls} {msg : List Byte}
    (entered : ∀ fd ∈ before.entered (.start calls msg), InRange fd)
    (success : (before.server.start calls).2.success = true) : InRange (before.server.start calls).1.sockfd := by
  obtain ⟨-, -, ⟨failed, -⟩ | ⟨-, invalid, -⟩ | ⟨initialized, valid, sockfd, -⟩⟩ :=
    start_descriptors calls before.server
  · rw [TcpServer.start, if_pos failed] at success
    cases success
  · rcases start_cases calls before.server with ⟨-, valid, -⟩ | ⟨failed, -⟩
    · exact absurd invalid valid
    · rw [failed] at success
      cases success
  · exact sockfd ▸ entered _ (mem_entered initialized valid (.inl success))

theorem start_fits (fits : before.Fits) {calls : StartCalls} {msg : List Byte}
    (entered : ∀ fd ∈ before.entered (.start calls msg), InRange fd) {task : Task} (running : before.task = some task)
    (going : task.pc ≠ .exited) : (before.server.start calls).1.sockfd < fdSetSize ∧ task.pc.Fits := by
  obtain ⟨bounded, holds⟩ := fits.task task running going
  refine ⟨?_, holds⟩
  obtain ⟨-, -, ⟨-, sockfd, -⟩ | ⟨-, -, sockfd, -⟩ | ⟨initialized, valid, sockfd, -⟩⟩ :=
    start_descriptors calls before.server
  · rwa [sockfd]
  · rw [sockfd]
    decide
  · have looping : before.looping = true := by simp [System.looping, running, going]
    exact sockfd ▸ (entered _ (mem_entered initialized valid (.inr looping))).2

theorem step_fits (fits : before.Fits) (entered : ∀ fd ∈ before.entered label, InRange fd)
    (stepped : step before label = some (after, events)) : after.Fits := by
  cases step_changed stepped with
  | moves running moved =>
      obtain ⟨sockfd, holds⟩ := fits.task _ running moved.not_exited
      obtain ⟨server, sockfd, task⟩ := moved.fits fits.server sockfd holds (entered_of_moved moved ▸ entered)
      exact ⟨server, by simp [sockfd, task]⟩
  | @calls caller call =>
      cases call with
      | deleteClient handle =>
          refine ⟨fits.server.deleteClient handle, fun task running going => ?_⟩
          exact (TcpServer.sockfd_deleteClient before.server handle).symm ▸ fits.task task running going
      | sendBcast | sendClientMessage | getClientInfo => exact fits
  | @starts calls msg ret unused valid success idle =>
      obtain ⟨same, -, -, told⟩ := step_start stepped
      have alive : before.terminated ≠ true := by simp [step_alive stepped]
      cases told.resolve_left alive
      have inRange := start_inRange entered success
      rw [← same] at inRange
      exact ⟨fits.server.of_same rfl, by simp [Pc.Fits, inRange.2]⟩
  | @terminates calls | @startFails calls =>
      obtain ⟨same, -⟩ := step_start stepped
      refine ⟨fits.server.of_same (same ▸ (start_descriptors calls before.server).1), fun task running going => ?_⟩
      exact same ▸ start_fits fits entered running going
  | stops | opens | closes => exact ⟨fits.server.of_same rfl, fits.task⟩
  | finishes => exact ⟨by simp [TcpServer.Fits, closeSockets], by simp⟩

theorem indices_inRange (fits : before.Fits) (entered : ∀ fd ∈ before.entered label, InRange fd) {fd : SOCKET}
    (used : fd ∈ before.indices label) : InRange fd := by
  cases label with
  | start calls msg =>
      rw [indices] at used
      split at used
      · rename_i success
        rw [List.mem_singleton.mp used]
        exact start_inRange entered success
      · cases used
  | call caller call =>
      cases call with
      | deleteClient handle => exact fits.server.cleared used
      | sendBcast | sendClientMessage | getClientInfo => cases used
  | serverTask =>
      obtain ⟨server, task, terminated⟩ := before
      cases task with
      | none => cases used
      | some task =>
          obtain ⟨pc, msg⟩ := task
          cases pc with
          | scan pass =>
              have holds : pass.Fits := (fits.task _ rfl nofun).2
              simp only [indices] at used
              split at used
              · rename_i inside
                rw [List.mem_singleton.mp used]
                exact ⟨holds.1, inside.trans_le holds.2⟩
              · cases used
          | delete pass => exact fits.server.cleared used
          | watch pass clientfd =>
              have holds : pass.Fits ∧ InRange clientfd := (fits.task _ rfl nofun).2
              rw [List.mem_singleton.mp used]
              exact holds.2
          | _ => cases used
  | _ => cases used

theorem mem_fds_deleteClient {server : TcpServer} {handle : ClientHandle} {fd : SOCKET}
    (other : fd ∉ server.cleared handle) : fd ∈ (server.deleteClient handle).1.fds ↔ fd ∈ server.fds := by
  rw [deleteClient]
  rw [cleared] at other
  cases found : server.clients.lookup handle with
  | none => rfl
  | some client =>
      simp only [found, List.mem_singleton] at other
      simp [other]

theorem step_fds (stepped : step before label = some (after, events)) (running : ∀ calls msg, label ≠ .start calls msg)
    {fd : SOCKET} (other : fd ∉ before.indices label) : fd ∈ after.server.fds ↔ fd ∈ before.server.fds := by
  cases step_changed stepped with
  | @moves task _ _ _ _ present moved =>
      obtain ⟨pc, msg⟩ := task
      cases moved with
      | deletes =>
          simp only [indices, present] at other
          exact mem_fds_deleteClient other
      | watches =>
          simp only [indices, present, List.mem_singleton] at other
          simp [other]
      | _ => rfl
  | @calls caller call =>
      cases call with
      | deleteClient handle => exact mem_fds_deleteClient other
      | sendBcast | sendClientMessage | getClientInfo => rfl
  | starts | terminates | startFails => exact absurd rfl (running _ _)
  | stops | finishes | opens | closes => rfl

theorem boot_fits (descriptors : List SOCKET) : (boot descriptors).Fits :=
  ⟨by simp [TcpServer.Fits, boot, init], by simp [boot]⟩

section Runs
variable {descriptors : List SOCKET} {steps : List (Taken System Label Event)} {final : System}

theorem run_fits (run : Run step (boot descriptors) steps final)
    (entered : ∀ taken ∈ steps, ∀ fd ∈ taken.before.entered taken.label, InRange fd) : final.Fits :=
  run.invariant (fun taken => ∀ fd ∈ taken.before.entered taken.label, InRange fd) Fits (boot_fits descriptors)
    (fun _ _ _ _ fits entered stepped => step_fits fits entered stepped) entered

theorem run_inRange (run : Run step (boot descriptors) steps final)
    (entered : ∀ taken ∈ steps, ∀ fd ∈ taken.before.entered taken.label, InRange fd) :
    ∀ taken ∈ steps, ∀ fd ∈ taken.before.indices taken.label, InRange fd := by
  intro taken member fd used
  obtain ⟨first, rest, after, rfl, front, -, -⟩ := run.reached member
  have fits := run_fits front fun earlier present => entered earlier (List.mem_append_left _ present)
  exact indices_inRange fits (entered taken member) used

theorem step_accepted (stepped : step before label = some (after, events)) {fd : SOCKET}
    (waiting : before.accepted = some fd) : after.accepted = some fd ∨ fd ∈ before.indices label := by
  cases step_changed stepped with
  | @moves task _ _ _ _ running moved =>
      obtain ⟨pc, msg⟩ := task
      rw [accepted, running] at waiting
      cases moved with
      | emplaces => exact .inl waiting
      | @watches pass clientfd =>
          obtain rfl : clientfd = fd := Option.some.inj waiting
          exact .inr (by simp [indices, running])
      | _ => cases waiting
  | starts _ _ _ idle =>
      rw [accepted, idle] at waiting
      cases waiting
  | finishes _ joined =>
      obtain ⟨task, running, here⟩ := Option.bind_eq_some_iff.mp waiting
      rw [joined task running] at here
      cases here
  | calls | terminates | startFails | stops | opens | closes => exact .inl waiting

/-- What comes in is an index at once, or when the thread watches the client, but for a start that fails. -/
theorem step_entered (stepped : step before label = some (after, events)) {fd : SOCKET}
    (enters : fd ∈ before.entered label) :
    fd ∈ before.indices label ∨ after.accepted = some fd ∨
      ∃ calls msg, label = .start calls msg ∧ (before.server.start calls).2.success = false := by
  cases label with
  | start calls msg =>
      cases success : (before.server.start calls).2.success with
      | false => exact .inr (.inr ⟨calls, msg, rfl, success⟩)
      | true =>
          rw [entered, if_pos (.inl success)] at enters
          rcases start_cases calls before.server with ⟨-, -, same⟩ | ⟨failed, -⟩
          · rw [Label.returned] at enters
            split at enters
            · exact .inl (by simpa [indices, success, same] using enters)
            · cases enters
          · exact absurd success (by simp [failed])
  | accept clientfd ip port =>
      have member : fd ∈ (Label.accept clientfd ip port).returned := enters
      rw [Label.returned] at member
      split at member
      · rename_i valid
        rw [List.mem_singleton.mp member]
        cases step_changed stepped with
        | @moves task _ _ _ _ running moved =>
            obtain ⟨pc, msg⟩ := task
            cases moved with
            | acceptFails => exact absurd rfl valid
            | accepts => exact .inr (.inl rfl)
      · cases member
  | _ => cases enters

theorem run_entered (run : Run step (boot descriptors) steps final) {taken : Taken System Label Event}
    (member : taken ∈ steps) {fd : SOCKET} (enters : fd ∈ taken.before.entered taken.label) :
    (∃ later ∈ steps, fd ∈ later.before.indices later.label) ∨ final.accepted = some fd ∨
      ∃ calls msg, taken.label = .start calls msg ∧ (taken.before.server.start calls).2.success = false := by
  induction run with
  | nil => cases member
  | @snoc steps before after label events _ stepped ih =>
      rcases List.mem_append.mp member with earlier | last
      · rcases ih earlier with ⟨later, present, used⟩ | waiting | failed
        · exact .inl ⟨later, List.mem_append_left _ present, used⟩
        · rcases step_accepted stepped waiting with still | used
          · exact .inr (.inl still)
          · exact .inl ⟨⟨before, label, events⟩, by simp, used⟩
        · exact .inr (.inr failed)
      · obtain rfl := List.mem_singleton.mp last
        rcases step_entered stepped enters with used | waiting | failed
        · exact .inl ⟨_, member, used⟩
        · exact .inr (.inl waiting)
        · exact .inr (.inr failed)

theorem entered_returned {fd : SOCKET} (enters : fd ∈ before.entered label) : fd ∈ label.returned := by
  cases label with
  | start calls msg =>
      rw [entered] at enters
      split at enters
      · exact enters
      · cases enters
  | _ => exact enters

end Runs

theorem start_indexed {fd : SOCKET} (valid : fd ≠ invalidSocket) :
    (step (boot []) (.start (listening fd) [])).isSome = true ∧ fd ∈ (boot []).indices (.start (listening fd) []) := by
  have closed : ¬ (boot []).server.kernel.IsOpen fd := by
    simp [boot, init, Kernel.initial, Kernel.IsOpen, Kernel.object]
  have success : ((boot []).server.start (listening fd)).2.success = true ∧
      ((boot []).server.start (listening fd)).1.sockfd = fd := by
    simp [TcpServer.start, listening, valid, SocketRet.succeeded]
  constructor
  · have free : ¬ ((listening fd).socket ≠ invalidSocket ∧ (boot []).server.kernel.IsOpen (listening fd).socket) :=
      fun both => closed both.2
    simp only [step]
    rw [if_neg (by simp [boot]), if_neg free, if_pos success.1]
    rfl
  · rw [indices, if_pos success.1, success.2]
    exact List.mem_singleton_self fd

/-- Whatever descriptors `Socket` and `Accept` may return: every index is within the descriptor set in
every run exactly if every one of them is. In a run every index is, if the descriptors are that come in
by it: of the starts that succeed, of those made while the thread is in its loop, and of the clients that are
accepted. If the index is, so are these, but for the start that fails and the client that is yet to be watched. -/
theorem indices_inRange_iff (allowed : SOCKET → Prop) :
    ((∀ descriptors steps final, Run step (boot descriptors) steps final →
        (∀ taken ∈ steps, ∀ fd ∈ taken.label.returned, allowed fd) →
        ∀ taken ∈ steps, ∀ fd ∈ taken.before.indices taken.label, InRange fd) ↔
      ∀ fd, allowed fd → fd ≠ invalidSocket → InRange fd) ∧
    ∀ descriptors steps final, Run step (boot descriptors) steps final →
      ((∀ taken ∈ steps, ∀ fd ∈ taken.before.entered taken.label, InRange fd) →
        ∀ taken ∈ steps, ∀ fd ∈ taken.before.indices taken.label, InRange fd) ∧
      ((∀ taken ∈ steps, ∀ fd ∈ taken.before.indices taken.label, InRange fd) →
        ∀ taken ∈ steps, ∀ fd ∈ taken.before.entered taken.label,
          InRange fd ∨ final.accepted = some fd ∨
            ∃ calls msg, taken.label = .start calls msg ∧ (taken.before.server.start calls).2.success = false) := by
  refine ⟨⟨fun within fd may valid => ?_, fun all descriptors steps final run returned => ?_⟩,
    fun descriptors steps final run => ⟨run_inRange run, fun within taken member fd enters => ?_⟩⟩
  · obtain ⟨started, used⟩ := start_indexed valid
    obtain ⟨⟨after, events⟩, stepped⟩ := Option.isSome_iff_exists.mp started
    have returned : ∀ other ∈ (Label.start (listening fd) []).returned, allowed other := by
      simp [Label.returned, listening, valid, may]
    exact within [] _ after (Run.single stepped) (by simpa using returned) _ List.mem_cons_self fd used
  · apply run_inRange run
    intro taken member fd enters
    have given := entered_returned enters
    apply all fd (returned taken member fd given)
    rintro rfl
    exact Label.invalid_not_returned _ given
  · rcases run_entered run member enters with ⟨later, present, used⟩ | open_
    · exact .inl (within later present fd used)
    · exact .inr open_

/-- A client connects when the process has a descriptor for each of the lower numbers. -/
theorem client_out_of_range : ∃ steps final, Run step (boot [0, 1, 2]) steps final ∧
    ∃ taken ∈ steps, 1024 ∈ taken.before.indices taken.label ∧ ¬ InRange 1024 := by
  have computed : (exec step (boot [0, 1, 2]) ((.start (listening 3) [] :: acceptPass 1024 0).take 10)).any
      (fun (steps, _) => decide (∃ taken ∈ steps, 1024 ∈ taken.before.indices taken.label)) = true := by
    decide +kernel
  obtain ⟨steps, final, run, checked⟩ := exists_run_of_exec computed
  simp only [decide_eq_true_eq] at checked
  obtain ⟨taken, member, used⟩ := checked
  exact ⟨steps, final, run, taken, member, used, by decide⟩

end System

end ZmqPlayground
