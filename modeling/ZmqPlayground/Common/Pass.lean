import ZmqPlayground.Common.WatchSet

/-! One pass over the descriptors that `Select` has reported.

The pass looks each of them up in the client table, which callbacks change while
the reported set stays as it was.
-/

set_option autoImplicit false

namespace ZmqPlayground

open Library
open Library.Runs

namespace TcpServer

def Pc.position : Pc → Option (Int × Finset SOCKET × SOCKET)
  | .scan pass | .recv pass | .accept pass => some (pass.maxfds, pass.readSet, pass.fd)
  | .delete pass | .emplace pass _ _ _ | .watch pass _ | .publish pass _ | .callback pass =>
      some (pass.maxfds, pass.readSet, pass.fd + 1)
  | .loop | .select _ _ | .exited => none

def Pc.serviced : Pc → Label → Option SOCKET
  | .recv pass, .recv _ _ => some pass.fd
  | .accept pass, .accept _ _ _ => some pass.fd
  | _, _ => none

/-- The client is registered, with the connection it had when `Select` returned. -/
def Remains (opened server : TcpServer) (fd : SOCKET) : Prop :=
  fd ∈ server.clients ∧ ∃ id, opened.kernel.object fd = some (.connection id) ∧
    server.kernel.object fd = some (.connection id)

/-- `Recv` and `Accept` are called on the descriptors they are meant for. -/
def Correct (opened server : TcpServer) (readSet : Finset SOCKET) : Pc → Label → Prop
  | .recv pass, .recv _ _ => pass.fd ∈ readSet ∧ Remains opened server pass.fd
  | .accept pass, .accept _ _ _ => pass.fd = server.sockfd
  | _, _ => True

section Moves
variable {opened server after : TcpServer} {msg : List Byte} {pc : Pc} {label : Label} {task : Task}
  {events : List Event} {maxfds : Int} {readSet : Finset SOCKET} {due : SOCKET}

/-- A pass ends at its bound, and it goes past a descriptor by servicing it or because it was not
reported. -/
theorem Moved.position (moved : Moved server msg pc label after task events)
    (current : pc.position = some (maxfds, readSet, due)) :
    task.pc = .loop ∧ maxfds ≤ due ∧ pc.serviced label = none ∨
    task.pc.position = some (maxfds, readSet, due) ∧ pc.serviced label = none ∨
    task.pc.position = some (maxfds, readSet, due + 1) ∧
      (pc.serviced label = some due ∨ pc.serviced label = none ∧ due ∉ readSet) := by
  cases moved with
  | exits | selects | retries | reports => cases current
  | ends finished =>
      cases current
      exact .inl ⟨rfl, finished, rfl⟩
  | skips inside silent =>
      cases current
      exact .inr (.inr ⟨rfl, .inr ⟨rfl, silent⟩⟩)
  | recvFails | recvCloses | receives | acceptFails | accepts =>
      cases current
      exact .inr (.inr ⟨rfl, .inl rfl⟩)
  | finds | misses | deletes | emplaces | watches | publishes | returns =>
      cases current
      exact .inr (.inl ⟨rfl, rfl⟩)

theorem Remains.deleteClient {fd handle : SOCKET} {arriving : Option SOCKET}
    (table : Registered server arriving) (remains : Remains opened server fd)
    (different : fd ≠ handle) : Remains opened (server.deleteClient handle).1 fd := by
  by_cases member : handle ∈ server.clients
  · obtain ⟨present, id, before, now⟩ := remains
    rw [table.deleteClient_eq member]
    exact ⟨AList.mem_erase.mpr ⟨different, present⟩, id, before, by simpa [different] using now⟩
  · rwa [deleteClient_of_not_mem member]

theorem Remains.accept {fd clientfd : SOCKET} (remains : Remains opened server fd)
    (unused : ¬ server.kernel.IsOpen clientfd) :
    Remains opened { server with kernel := server.kernel.accept clientfd } fd := by
  obtain ⟨present, id, before, now⟩ := remains
  exact ⟨present, id, before, Kernel.object_accept_of_open unused now⟩

theorem Remains.markDisconnected {fd other : SOCKET} (remains : Remains opened server fd) :
    Remains opened (server.markDisconnected other) fd :=
  ⟨Table.mem_modify.mpr remains.1, remains.2⟩

theorem Remains.addClient {fd clientfd : SOCKET} (remains : Remains opened server fd) (ip : Str)
    (port : UInt16) : Remains opened (server.addClient clientfd ip port) fd := by
  refine ⟨?_, remains.2⟩
  rw [TcpServer.addClient, Table.emplace]
  split
  · exact remains.1
  · exact (AList.mem_insert _).mpr (.inr remains.1)

/-- The pass is on its way with nothing gone wrong: what is to be serviced is as `Select` saw it. -/
structure Intact (opened server : TcpServer) (readSet : Finset SOCKET) (pc : Pc) (due : SOCKET) :
    Prop where
  same : server.sockfd = opened.sockfd
  atRecv : ∀ {pass}, pc = .recv pass → pass.fd ∈ readSet ∧ pass.fd ∈ server.clients
  atAccept : ∀ {pass}, pc = .accept pass → pass.fd ∈ readSet ∧ pass.fd ∉ server.clients
  remain : ∀ {fd}, fd ∈ readSet → due ≤ fd → fd ≠ opened.sockfd → Remains opened server fd

theorem Intact.correct (intact : Intact opened server readSet pc due)
    (watched : Watched server pc.arriving pc.unwatched)
    (current : pc.position = some (maxfds, readSet, due)) (label : Label) :
    Correct opened server readSet pc label := by
  unfold Correct
  split
  · rename_i pass _ _
    obtain ⟨reported, member⟩ := intact.atRecv rfl
    cases current
    refine ⟨reported, intact.remain reported (le_refl _) ?_⟩
    rintro listener
    exact watched.listener_not_mem (intact.same ▸ listener ▸ member)
  · rename_i pass _ _ _
    obtain ⟨reported, absent⟩ := intact.atAccept rfl
    cases current
    by_contra other
    rw [intact.same] at other
    exact absent (intact.remain reported (le_refl _) other).1
  · trivial

theorem Intact.advance (intact : Intact opened server readSet pc due) {later : Pc} {next : SOCKET}
    (noRecv : ∀ pass, later ≠ .recv pass) (noAccept : ∀ pass, later ≠ .accept pass)
    (same : after.sockfd = server.sockfd) (forward : due ≤ next)
    (kept : ∀ fd, next ≤ fd → Remains opened server fd → Remains opened after fd) :
    Intact opened after readSet later next where
  same := same.trans intact.same
  atRecv := fun {pass} equal => absurd equal (noRecv pass)
  atAccept := fun {pass} equal => absurd equal (noAccept pass)
  remain := fun reported bound other =>
    kept _ bound (intact.remain reported (forward.trans bound) other)

theorem Intact.of_kernel (intact : Intact opened server readSet pc due) {kernel : Kernel}
    (others : server.kernel.Others kernel) : Intact opened { server with kernel } readSet pc due where
  same := intact.same
  atRecv := intact.atRecv
  atAccept := intact.atAccept
  remain := by
    simp only [Remains, others.connection_iff]
    exact intact.remain

theorem Moved.intact (moved : Moved server msg pc label after task events)
    (watched : Watched server pc.arriving pc.unwatched)
    (current : pc.position = some (maxfds, readSet, due)) (intact : Intact opened server readSet pc due)
    {next : SOCKET} (moves : task.pc.position = some (maxfds, readSet, next)) :
    Intact opened after readSet task.pc next := by
  have step : ∀ fd : SOCKET, fd ≤ fd + 1 := fun fd => (Int.lt_succ fd).le
  cases moved with
  | exits | selects | retries | reports => cases current
  | ends => cases moves
  | skips | acceptFails =>
      cases current; cases moves
      exact intact.advance nofun nofun rfl (step _) fun _ _ remains => remains
  | finds inside reported member =>
      cases current; cases moves
      exact ⟨intact.same, by rintro _ ⟨⟩; exact ⟨reported, member⟩, nofun, intact.remain⟩
  | misses inside reported absent =>
      cases current; cases moves
      exact ⟨intact.same, nofun, by rintro _ ⟨⟩; exact ⟨reported, absent⟩, intact.remain⟩
  | recvFails | recvCloses =>
      cases current; cases moves
      exact intact.advance nofun nofun rfl (step _) fun _ _ remains => remains.markDisconnected
  | receives =>
      cases current; cases moves
      exact intact.advance nofun nofun rfl (step _) fun _ _ remains => remains
  | deletes =>
      cases current; cases moves
      -- The thread deletes the client at `pass.fd`, which the pass has come to already.
      refine intact.advance nofun nofun (sockfd_deleteClient _ _) (le_refl _) fun fd bound remains => ?_
      exact remains.deleteClient watched.toRegistered (Int.lt_of_add_one_le bound).ne'
  | accepts valid unused =>
      cases current; cases moves
      exact intact.advance nofun nofun rfl (step _) fun _ _ remains => remains.accept unused
  | emplaces =>
      cases current; cases moves
      exact intact.advance nofun nofun rfl (le_refl _) fun _ _ remains => remains.addClient _ _
  | watches | publishes | returns =>
      cases current; cases moves
      exact intact.advance nofun nofun rfl (le_refl _) fun _ _ remains => remains

theorem Registered.gone (table : Registered server none) {handle : ClientHandle} {id : ℕ}
    (counted : id < server.kernel.connections) :
    (server.deleteClient handle).1.kernel.Gone handle id := by
  by_cases member : handle ∈ server.clients
  · rw [table.deleteClient_eq member]
    exact ⟨by simp, counted⟩
  · rw [deleteClient_of_not_mem member]
    refine ⟨fun connection => member ?_, counted⟩
    exact (table.registered connection).resolve_right (by simp)

end Moves

end TcpServer

namespace System

open TcpServer

variable {opened : TcpServer} {maxfds : Int} {readSet : Finset SOCKET}

def serviced (taken : Taken System Label Event) : Option SOCKET :=
  taken.before.task.bind fun task => task.pc.serviced taken.label

/-- Each reported descriptor is serviced at most once, and correctly. -/
structure PassCorrect (opened : TcpServer) (readSet : Finset SOCKET)
    (pass : List (Taken System Label Event)) : Prop where
  once : (pass.filterMap serviced).Nodup
  correct : ∀ taken ∈ pass, ∀ task ∈ taken.before.task,
    Correct opened taken.before.server readSet task.pc taken.label

/-- A callback deletes a client that `Select` has reported and the pass has not come to yet. -/
def RemovesReported (readSet : Finset SOCKET) (taken : Taken System Label Event) : Prop :=
  match taken.before.task, taken.label with
  | some ⟨.callback pass, _⟩, .call .serverTask (.deleteClient handle) =>
      pass.fd < handle ∧ handle ∈ readSet ∧ handle ≠ taken.before.server.sockfd
  | _, _ => False

def InPass (maxfds : Int) (readSet : Finset SOCKET) (system : System) (due : SOCKET) : Prop :=
  ∃ task, system.task = some task ∧ task.pc.position = some (maxfds, readSet, due)

theorem InPass.not_atLoop {system : System} {due : SOCKET} (inside : InPass maxfds readSet system due) :
    ¬ system.AtLoop := by
  intro top
  obtain ⟨task, running, current⟩ := inside
  obtain ⟨msg, atLoop⟩ := top.task
  obtain rfl := Option.some.inj (running.symm.trans atLoop)
  cases current

theorem step_position {before after : System} {label : Label} {events : List Event} {due : SOCKET}
    (inside : InPass maxfds readSet before due) (serving : Serving ⟨before, label, events⟩)
    (stepped : step before label = some (after, events)) :
    AtLoop after ∧ maxfds ≤ due ∧ serviced ⟨before, label, events⟩ = none ∨
    InPass maxfds readSet after due ∧ serviced ⟨before, label, events⟩ = none ∨
    InPass maxfds readSet after (due + 1) ∧ (serviced ⟨before, label, events⟩ = some due ∨
      serviced ⟨before, label, events⟩ = none ∧ due ∉ readSet) := by
  obtain ⟨task, running, current⟩ := inside
  have service : serviced ⟨before, label, events⟩ = task.pc.serviced label := by
    simp [serviced, running]
  rw [service]
  rcases serving_cases running serving stepped with ⟨_, next, moved, rfl⟩ |
    ⟨handle, pass, rfl, atCallback, rfl⟩ | ⟨kernel, others, outside, rfl⟩
  · rcases moved.position current with ⟨atLoop, rest⟩ | ⟨moves, rest⟩ | ⟨moves, rest⟩
    · exact .inl ⟨congrArg some atLoop, rest⟩
    · exact .inr (.inl ⟨⟨next, rfl, moves⟩, rest⟩)
    · exact .inr (.inr ⟨⟨next, rfl, moves⟩, rest⟩)
  · exact .inr (.inl ⟨⟨task, running, current⟩, by rw [atCallback]; rfl⟩)
  · refine .inr (.inl ⟨⟨task, running, current⟩, ?_⟩)
    cases label with
    | call | opens | closes => unfold Pc.serviced; split <;> simp_all
    | _ => exact outside.elim

/-- The descriptors serviced so far are in increasing order, and they are all the reported ones up
to some position, which is the bound of the pass when it is over. -/
structure Progress (maxfds : Int) (readSet : Finset SOCKET) (due : SOCKET) (services : List SOCKET)
    (system : System) (position : SOCKET) : Prop where
  place : InPass maxfds readSet system position ∨ AtLoop system ∧ maxfds ≤ position
  ordered : services.Pairwise (· < ·)
  past : ∀ fd ∈ services, fd < position
  complete : ∀ fd ∈ readSet, due ≤ fd → fd < position → fd ∈ services

theorem run_progress {start final : System} {due : SOCKET} {steps : List (Taken System Label Event)}
    (run : Run step start steps final) (inside : InPass maxfds readSet start due)
    (serving : ∀ taken ∈ steps, Serving taken) (unbroken : ∀ taken ∈ steps, ¬ AtLoop taken.before) :
    ∃ position, Progress maxfds readSet due (steps.filterMap serviced) final position := by
  induction run with
  | nil =>
      refine ⟨due, .inl inside, .nil, by simp, fun fd _ bound less => ?_⟩
      exact absurd less (not_lt.mpr bound)
  | @snoc steps before after label events _ stepped ih =>
      simp only [List.mem_append, List.mem_singleton] at serving unbroken
      obtain ⟨position, place, ordered, past, complete⟩ :=
        ih (fun taken member => serving taken (.inl member))
          (fun taken member => unbroken taken (.inl member))
      have within := place.resolve_right fun finished => unbroken _ (.inr rfl) finished.1
      rw [filterMap_snoc]
      rcases step_position within (serving _ (.inr rfl)) stepped with ⟨finished, bound, silent⟩ |
        ⟨stays, silent⟩ | ⟨moves, service | ⟨silent, unreported⟩⟩
      · rw [silent, Option.toList_none, List.append_nil]
        exact ⟨position, .inr ⟨finished, bound⟩, ordered, past, complete⟩
      · rw [silent, Option.toList_none, List.append_nil]
        exact ⟨position, .inl stays, ordered, past, complete⟩
      · -- The due descriptor is serviced, and the pass moves on by one.
        rw [service, Option.toList_some]
        refine ⟨position + 1, .inl moves, ?_, fun fd member => ?_, fun fd reported bound less => ?_⟩
        · exact List.pairwise_append.mpr ⟨ordered, List.pairwise_singleton _ _, by simpa using past⟩
        · rcases List.mem_append.mp member with old | new
          · exact (past fd old).trans (Int.lt_succ _)
          · rw [List.mem_singleton.mp new]
            exact Int.lt_succ _
        · rcases (Int.lt_add_one_iff.mp less).lt_or_eq with earlier | rfl
          · exact List.mem_append.mpr (.inl (complete fd reported bound earlier))
          · exact List.mem_append.mpr (.inr (List.mem_singleton.mpr rfl))
      · rw [silent, Option.toList_none, List.append_nil]
        -- It is not reported and skipped.
        refine ⟨position + 1, .inl moves, ordered, fun fd member => (past fd member).trans (Int.lt_succ _),
          fun fd reported bound less => ?_⟩
        rcases (Int.lt_add_one_iff.mp less).lt_or_eq with earlier | rfl
        · exact complete fd reported bound earlier
        · exact absurd reported unreported

def OnCourse (opened : TcpServer) (maxfds : Int) (readSet : Finset SOCKET) (system : System) : Prop :=
  ∃ task due, system.task = some task ∧ task.pc.position = some (maxfds, readSet, due) ∧
    Intact opened system.server readSet task.pc due

theorem step_onCourse {before after : System} {label : Label} {events : List Event}
    (watching : before.Watching) (course : OnCourse opened maxfds readSet before)
    (serving : Serving ⟨before, label, events⟩) (spares : ¬ RemovesReported readSet ⟨before, label, events⟩)
    (stepped : step before label = some (after, events)) :
    after.AtLoop ∨ OnCourse opened maxfds readSet after := by
  obtain ⟨task, due, running, current, intact⟩ := course
  rw [Watching, running] at watching
  rcases serving_cases running serving stepped with ⟨_, next, moved, rfl⟩ |
    ⟨handle, pass, rfl, atCallback, rfl⟩ | ⟨kernel, others, outside, rfl⟩
  · rcases moved.position current with ⟨atLoop, -⟩ | ⟨moves, -⟩ | ⟨moves, -⟩
    · exact .inl (congrArg some atLoop)
    · exact .inr ⟨next, _, rfl, moves, moved.intact watching current intact moves⟩
    · exact .inr ⟨next, _, rfl, moves, moved.intact watching current intact moves⟩
  · -- A callback may delete what the pass has left behind, but nothing that it is still to find.
    obtain ⟨pc, msg⟩ := task
    obtain rfl : pc = .callback pass := atCallback
    cases current
    refine .inr ⟨_, _, running, rfl, ?_⟩
    refine ⟨(sockfd_deleteClient _ _).trans intact.same, by rintro _ ⟨⟩, by rintro _ ⟨⟩,
      fun {fd} reported bound other => ?_⟩
    refine (intact.remain reported bound other).deleteClient watching.toRegistered ?_
    rintro rfl
    rw [RemovesReported, running] at spares
    exact spares ⟨Int.lt_of_add_one_le bound, reported, intact.same ▸ other⟩
  · exact .inr ⟨task, due, running, current, intact.of_kernel others⟩

theorem run_onCourse {start final : System} {steps : List (Taken System Label Event)}
    (run : Run step start steps final) (watching : start.Watching)
    (course : OnCourse opened maxfds readSet start) (serving : ∀ taken ∈ steps, Serving taken)
    (unbroken : ∀ taken ∈ steps, ¬ taken.before.AtLoop)
    (spares : ∀ taken ∈ steps, ¬ RemovesReported readSet taken) :
    final.Watching ∧ (final.AtLoop ∨ OnCourse opened maxfds readSet final) := by
  refine run.invariant
    (fun taken => Serving taken ∧ ¬ taken.before.AtLoop ∧ ¬ RemovesReported readSet taken)
    (fun system => system.Watching ∧ (system.AtLoop ∨ OnCourse opened maxfds readSet system))
    ⟨watching, .inr course⟩ (fun before label after events holds permitted stepped => ?_)
    (fun taken member => ⟨serving taken member, unbroken taken member, spares taken member⟩)
  obtain ⟨serves, inside, spared⟩ := permitted
  exact ⟨step_watching holds.1 serves stepped,
    step_onCourse holds.1 (holds.2.resolve_left inside) serves spared stepped⟩

theorem step_lasting {before after : System} {label : Label} {events : List Event} {task : Task}
    (running : before.task = some task) (serving : Serving ⟨before, label, events⟩)
    (stepped : step before label = some (after, events)) :
    after.task ≠ none ∧ after.server.sockfd = before.server.sockfd ∧
      before.server.kernel.Later after.server.kernel := by
  rcases serving_cases running serving stepped with ⟨_, next, moved, rfl⟩ |
    ⟨handle, pass, rfl, atCallback, rfl⟩ | ⟨kernel, others, outside, rfl⟩
  · exact ⟨by simp, moved.lasting⟩
  · exact ⟨by simp [running], sockfd_deleteClient _ _, later_deleteClient _ _⟩
  · exact ⟨by simp [running], rfl, .others others⟩

theorem run_lasting {start final : System} {steps : List (Taken System Label Event)}
    (run : Run step start steps final) (running : start.task ≠ none)
    (serving : ∀ taken ∈ steps, Serving taken) :
    final.task ≠ none ∧ final.server.sockfd = start.server.sockfd ∧
      start.server.kernel.Later final.server.kernel := by
  refine run.invariant Serving (fun system => system.task ≠ none ∧
    system.server.sockfd = start.server.sockfd ∧ start.server.kernel.Later system.server.kernel)
    ⟨running, rfl, .refl _⟩ (fun before label after events holds serves stepped => ?_) serving
  obtain ⟨runs, same, later⟩ := holds
  obtain ⟨task, found⟩ := Option.ne_none_iff_exists'.mp runs
  obtain ⟨runsNext, sameNext, laterNext⟩ := step_lasting found serves stepped
  exact ⟨runsNext, sameNext.trans same, later.trans laterNext⟩

def Snapshot (system : System) : Prop :=
  ∀ maxfds fds msg, system.task = some ⟨.select maxfds fds, msg⟩ →
    maxfds = system.server.findMaxFd ∧ fds = system.server.fds

theorem step_snapshot {before after : System} {label : Label} {events : List Event}
    (snapshot : before.Snapshot) (serving : Serving ⟨before, label, events⟩)
    (stepped : step before label = some (after, events)) : after.Snapshot := by
  intro maxfds fds msg atSelect
  cases found : before.task with
  | some task =>
      rcases serving_cases found serving stepped with ⟨_, next, moved, rfl⟩ |
        ⟨handle, pass, rfl, atCallback, rfl⟩ | ⟨kernel, others, outside, rfl⟩
      · obtain rfl := Option.some.inj atSelect
        generalize task.pc = pc at moved
        cases moved
        exact ⟨rfl, rfl⟩
      · obtain rfl := Option.some.inj (found.symm.trans atSelect)
        cases atCallback
      · exact snapshot maxfds fds msg atSelect
  | none =>
      cases step_changed stepped with
      | moves running => exact absurd (found.symm.trans running) (by simp)
      | starts => cases atSelect
      | finishes => exact serving.elim
      | _ => exact absurd (found.symm.trans atSelect) (by simp)

theorem run_snapshot {descriptors : List SOCKET} {steps : List (Taken System Label Event)}
    {final : System} (run : Run step (boot descriptors) steps final)
    (serving : ∀ taken ∈ steps, Serving taken) : final.Snapshot :=
  run.invariant Serving Snapshot (fun _ _ _ running => by cases running)
    (fun _ _ _ _ snapshot => step_snapshot snapshot) serving

theorem select_opens {before after : System} {selectRet : Int} {events : List Event}
    (selected : step before (.select selectRet readSet) = some (after, events))
    (ready : 0 < selectRet) :
    ∃ maxfds fds msg, before.task = some ⟨.select maxfds fds, msg⟩ ∧ readSet ⊆ fds ∧
      after = { before with task := some ⟨.scan ⟨maxfds, readSet, 0⟩, msg⟩ } := by
  cases step_changed selected with
  | @moves task _ _ _ _ running moved =>
      obtain ⟨pc, msg⟩ := task
      cases moved with
      | retries _ none_ready => omega
      | reports subset _ => exact ⟨_, _, _, running, subset, rfl⟩

theorem opened_onCourse {selecting opened : System} {selectRet : Int} {events : List Event}
    (watching : selecting.Watching) (snapshot : selecting.Snapshot)
    (selected : step selecting (.select selectRet readSet) = some (opened, events))
    (ready : 0 < selectRet) :
    ∃ maxfds, InPass maxfds readSet opened 0 ∧ (∀ fd ∈ readSet, fd < maxfds) ∧
      (∀ fd ∈ readSet, fd ≠ opened.server.sockfd → Remains opened.server opened.server fd) ∧
      OnCourse opened.server maxfds readSet opened := by
  obtain ⟨maxfds, fds, msg, running, subset, rfl⟩ := select_opens selected ready
  obtain ⟨rfl, rfl⟩ := snapshot _ _ _ running
  rw [Watching, running] at watching
  have remain : ∀ fd ∈ readSet, fd ≠ selecting.server.sockfd →
      Remains selecting.server selecting.server fd := by
    intro fd reported other
    have member := ((watching.watched fd).mp (.inl (subset reported))).resolve_left other
    obtain ⟨-, id, connection⟩ := watching.connected member
    exact ⟨member, id, connection, connection⟩
  refine ⟨_, ⟨_, rfl, rfl⟩, fun fd reported => watching.consistent.bounded fd (subset reported), remain,
    _, 0, rfl, rfl, rfl, by rintro _ ⟨⟩, by rintro _ ⟨⟩,
    fun reported _ other => remain _ reported other⟩

/-- A reported client that a callback deletes is taken for something else when its turn comes. -/
theorem exists_incorrect {before final : System} {due fd : SOCKET} {id : ℕ}
    {rest : List (Taken System Label Event)} (run : Run step before rest final)
    (inside : InPass maxfds readSet before due) (serving : ∀ taken ∈ rest, Serving taken)
    (unbroken : ∀ taken ∈ rest, ¬ taken.before.AtLoop) (finished : final.AtLoop)
    (reported : fd ∈ readSet) (ahead : due ≤ fd) (bounded : fd < maxfds)
    (other : fd ≠ before.server.sockfd) (was : opened.kernel.object fd = some (.connection id))
    (gone : before.server.kernel.Gone fd id) :
    ∃ taken ∈ rest, ∃ task ∈ taken.before.task,
      ¬ Correct opened taken.before.server readSet task.pc taken.label := by
  obtain ⟨position, place, -, -, complete⟩ := run_progress run inside serving unbroken
  have ended := (place.resolve_left fun inside => inside.not_atLoop finished).2
  have found := complete fd reported ahead (bounded.trans_le ended)
  obtain ⟨taken, member, service⟩ := List.mem_filterMap.mp found
  obtain ⟨task, running, service⟩ := Option.bind_eq_some_iff.mp service
  refine ⟨taken, member, task, running, fun correct => ?_⟩
  -- What held of the descriptor after its deletion still holds when it is serviced.
  obtain ⟨first, last, after, rfl, front, -, -⟩ := run.reached member
  have started : before.task ≠ none := by
    obtain ⟨task, running, -⟩ := inside
    simp [running]
  obtain ⟨-, same, later⟩ :=
    run_lasting front started fun taken earlier => serving taken (by simp [earlier])
  unfold Pc.serviced at service
  split at service
  · rename_i atRecv isRecv
    cases service
    rw [atRecv, isRecv] at correct
    obtain ⟨-, -, current, before, now⟩ := correct
    cases was.symm.trans before
    exact (later.gone gone).1 now
  · rename_i atAccept isAccept
    cases service
    rw [atAccept, isAccept] at correct
    exact other (Eq.trans correct same)
  · cases service

theorem RemovesReported.deletes {taken : Taken System Label Event}
    (removes : RemovesReported readSet taken) :
    ∃ pass msg handle, taken.before.task = some ⟨.callback pass, msg⟩ ∧
      taken.label = .call .serverTask (.deleteClient handle) ∧ pass.fd < handle ∧ handle ∈ readSet ∧
      handle ≠ taken.before.server.sockfd := by
  unfold RemovesReported at removes
  split at removes
  · exact ⟨_, _, _, by assumption, by assumption, removes⟩
  · cases removes

theorem deleteClient_step {before after : System} {caller : Caller} {handle : ClientHandle}
    {events : List Event}
    (stepped : step before (.call caller (.deleteClient handle)) = some (after, events)) :
    after = { before with server := (before.server.deleteClient handle).1 } := by
  cases step_changed stepped with
  | @moves task _ _ _ _ _ moved =>
      obtain ⟨pc, msg⟩ := task
      cases moved
  | calls => rfl

/-- A pass services every descriptor once and correctly, exactly if none of its callbacks deletes
a reported client that the pass has yet to come to. -/
theorem pass_correct_iff {descriptors : List SOCKET} {front : List (Taken System Label Event)}
    {selecting opened final : System} {selectRet : Int} {events : List Event}
    {pass : List (Taken System Label Event)}
    (run : Run step (boot descriptors) front selecting) (serving : ∀ taken ∈ front, Serving taken)
    (selected : step selecting (.select selectRet readSet) = some (opened, events))
    (ready : 0 < selectRet) (passed : Run step opened pass final)
    (serves : ∀ taken ∈ pass, Serving taken) (unbroken : ∀ taken ∈ pass, ¬ taken.before.AtLoop)
    (finished : final.AtLoop) :
    PassCorrect opened.server readSet pass ↔ ∀ taken ∈ pass, ¬ RemovesReported readSet taken := by
  have watching := run_watching run serving
  obtain ⟨maxfds, inside, bounded, remain, course⟩ :=
    opened_onCourse watching (run_snapshot run serving) selected ready
  have selects : Serving ⟨selecting, .select selectRet readSet, events⟩ := trivial
  have watchingOpened := step_watching watching selects selected
  constructor
  · -- The deleted client is still serviced when its turn comes, and then incorrectly.
    intro correct taken member removes
    obtain ⟨first, rest, after, rfl, before, stepped, later⟩ := passed.reached member
    have earlier : ∀ taken ∈ first, Serving taken := fun taken member => serves taken (by simp [member])
    have afterwards : ∀ taken ∈ rest, Serving taken := fun taken member => serves taken (by simp [member])
    obtain ⟨place, msg, handle, running, isDelete, ahead, reported, other⟩ := removes.deletes
    have started : opened.task ≠ none := by
      obtain ⟨task, running, -⟩ := inside
      simp [running]
    obtain ⟨-, same, counts, -⟩ := run_lasting before started earlier
    obtain ⟨-, id, was, -⟩ := remain handle reported (same ▸ other)
    -- The callback runs while the pass is at the descriptor before the next one.
    obtain ⟨position, within, -, -, -⟩ := run_progress before inside earlier
      fun taken member => unbroken taken (by simp [member])
    obtain ⟨task, runs, current⟩ := within.resolve_right fun top => unbroken taken (by simp) top.1
    obtain rfl := Option.some.inj (runs.symm.trans running)
    cases current
    have sound := run_keeps_watching before watchingOpened earlier
    rw [Watching, running] at sound
    rw [isDelete] at stepped
    have deleted := deleteClient_step stepped
    subst deleted
    have gone : (taken.before.server.deleteClient handle).1.kernel.Gone handle id :=
      Registered.gone sound.toRegistered ((opened.server.kernel.counted handle id was).trans_le counts)
    obtain ⟨bad, badMember, badTask, badRunning, wrong⟩ :=
      exists_incorrect later ⟨_, running, rfl⟩ afterwards
        (fun taken member => unbroken taken (by simp [member])) finished reported
        (Int.add_one_le_of_lt ahead) (bounded handle reported)
        (by simpa only [sockfd_deleteClient] using other) was gone
    exact wrong (correct.correct bad (by simp [badMember]) badTask badRunning)
  · -- Nothing reported goes away ahead of the pass, so each service finds what `Select` saw.
    intro spares
    refine ⟨?_, fun taken member task running => ?_⟩
    · obtain ⟨position, -, ordered, -, -⟩ := run_progress passed inside serves unbroken
      exact ordered.imp fun less => less.ne
    · obtain ⟨first, rest, after, rfl, before, -, -⟩ := passed.reached member
      have reached := run_onCourse before watchingOpened course
        (fun taken earlier => serves taken (by simp [earlier]))
        (fun taken earlier => unbroken taken (by simp [earlier]))
        (fun taken earlier => spares taken (by simp [earlier]))
      obtain ⟨sound, atLoop | ⟨found, due, runs, current, intact⟩⟩ := reached
      · exact absurd atLoop (unbroken taken member)
      · obtain rfl := Option.some.inj (runs.symm.trans running)
        rw [Watching, runs] at sound
        exact intact.correct sound current taken.label

/-- `Accept` is called on a descriptor that is not the listening socket. -/
def acceptsElsewhere (taken : Taken System Label Event) : Bool :=
  match taken.before.task, taken.label with
  | some ⟨.accept pass, _⟩, .accept _ _ _ => pass.fd ≠ taken.before.server.sockfd
  | _, _ => false

theorem acceptsElsewhere_incorrect {taken : Taken System Label Event}
    (elsewhere : acceptsElsewhere taken = true) :
    ∃ task ∈ taken.before.task,
      ¬ Correct opened taken.before.server readSet task.pc taken.label := by
  unfold acceptsElsewhere at elsewhere
  split at elsewhere
  · rename_i running isAccept
    refine ⟨_, running, ?_⟩
    rw [isAccept]
    exact (of_decide_eq_true elsewhere : _ ≠ _)
  · cases elsewhere

def removingPass : List Label :=
  List.replicate 5 .serverTask ++ [.recv 1 [7], .serverTask, .call .serverTask (.deleteClient 5),
    .returns, .serverTask, .accept (-1) [] 0, .serverTask]

theorem removing_run : ∃ front selecting opened events pass final,
    (Run step (boot [0, 1, 2]) front selecting ∧ ∀ taken ∈ front, Serving taken) ∧
    step selecting (.select 2 {4, 5}) = some (opened, events) ∧ Run step opened pass final ∧
    ((∀ taken ∈ pass, Serving taken) ∧ (∀ taken ∈ pass, ¬ taken.before.AtLoop)) ∧ final.AtLoop ∧
    ∃ taken ∈ pass, acceptsElsewhere taken = true := by
  have computed : (exec step (boot [0, 1, 2]) (.start (listening 3) [] ::
      acceptPass 4 0 ++ acceptPass 5 1 ++ [.serverTask])).any (fun front =>
        decide (∀ taken ∈ front.1, Serving taken) &&
        (step front.2 (.select 2 {4, 5})).any fun opened =>
          (exec step opened.1 removingPass).any fun pass =>
            (decide (∀ taken ∈ pass.1, Serving taken) &&
              decide (∀ taken ∈ pass.1, ¬ taken.before.AtLoop)) &&
            decide pass.2.AtLoop && pass.1.any acceptsElsewhere) = true := by
    decide +kernel
  obtain ⟨front, selecting, run, computed⟩ := exists_run_of_exec computed
  obtain ⟨serving, computed⟩ := (Bool.and_eq_true _ _).mp computed
  obtain ⟨⟨opened, events⟩, selected, computed⟩ := (Option.any_eq_true _ _).mp computed
  obtain ⟨pass, final, passed, computed⟩ := exists_run_of_exec computed
  simp only [Bool.and_eq_true, decide_eq_true_eq, List.any_eq_true] at serving computed
  obtain ⟨⟨serves, finished⟩, elsewhere⟩ := computed
  exact ⟨front, selecting, opened, events, pass, final, ⟨run, serving⟩, selected, passed, serves, finished,
    elsewhere⟩

/-- The descriptor of the deleted client is passed to `Accept`. -/
theorem removed_client_accepted : ∃ front selecting opened events pass final,
    (Run step (boot [0, 1, 2]) front selecting ∧ ∀ taken ∈ front, Serving taken) ∧
    step selecting (.select 2 {4, 5}) = some (opened, events) ∧ Run step opened pass final ∧
    ((∀ taken ∈ pass, Serving taken) ∧ (∀ taken ∈ pass, ¬ taken.before.AtLoop)) ∧ final.AtLoop ∧
    ¬ PassCorrect opened.server {4, 5} pass := by
  obtain ⟨front, selecting, opened, events, pass, final, run, selected, passed, serves, finished, taken,
    member, elsewhere⟩ := removing_run
  refine ⟨front, selecting, opened, events, pass, final, run, selected, passed, serves, finished,
    fun correct => ?_⟩
  obtain ⟨task, running, wrong⟩ := acceptsElsewhere_incorrect elsewhere
  exact wrong (correct.correct taken member task running)

theorem pass_correct_iff_removing : ∃ opened pass, pass ≠ [] ∧
    (PassCorrect opened {4, 5} pass ↔ ∀ taken ∈ pass, ¬ RemovesReported {4, 5} taken) := by
  obtain ⟨front, selecting, opened, events, pass, final, run, selected, passed, serves, finished, taken,
    member, -⟩ := removing_run
  exact ⟨opened.server, pass, List.ne_nil_of_mem member,
    pass_correct_iff run.1 run.2 selected (by decide) passed serves.1 serves.2 finished⟩

end System

end ZmqPlayground
