import ZmqPlayground.Common.Descriptors
import ZmqPlayground.Library.Draining

/-! The end of the threads that `finish` waits for.

The flag is read at the top of a loop only. Until the thread gets there it completes the
pass it is in: it serves, accepts and publishes what `Select` has reported, once for
each descriptor. What the other threads do in the meantime does not lengthen it, but a
broadcast keeps the mutex while it waits in `Send`, and the server thread waits with it.
-/

set_option autoImplicit false

namespace ZmqPlayground

open Library
open Library.Runs

namespace TcpServer

def Label.isStart : Label → Bool
  | .start _ _ => true
  | _ => false

/-- The steps to the end of the loop, at most six for each descriptor that has not been looked at. -/
def Pass.left (pass : Pass) : ℕ := 6 * (pass.maxfds - pass.fd).toNat + 2

def Pc.left : Pc → ℕ
  | .exited => 0
  | .loop => 1
  | .select maxfds _ => 6 * maxfds.toNat + 3
  | .scan pass => pass.left
  | .callback pass => pass.next.left + 1
  | .publish pass _ => pass.next.left + 2
  | .delete pass | .watch pass _ => pass.next.left + 3
  | .recv pass | .emplace pass _ _ _ => pass.next.left + 4
  | .accept pass => pass.next.left + 5

theorem Pc.left_eq_zero {pc : Pc} (ended : pc.left = 0) : pc = .exited := by
  cases pc with
  | exited => rfl
  | _ => simp [left, Pass.left] at ended

theorem Pass.left_next {pass : Pass} (inside : pass.fd < pass.maxfds) :
    pass.left = pass.next.left + 6 := by
  have one_less : ∀ {maxfds fd : Int}, fd < maxfds →
      6 * (maxfds - fd).toNat + 2 = 6 * (maxfds - (fd + 1)).toNat + 2 + 6 := by
    intro maxfds fd inside
    omega
  exact one_less inside

theorem Pass.two_le_left (pass : Pass) : 2 ≤ pass.left := Nat.le_add_left 2 _

theorem Moved.left_lt {server after : TcpServer} {msg : List Byte} {pc : Pc} {label : Label} {task : Task}
    {events : List Event} (moved : Moved server msg pc label after task events)
    (stopped : server.stop = true) : task.pc.left < pc.left := by
  cases moved with
  | selects running => exact absurd (stopped.symm.trans running) Bool.noConfusion
  | exits => exact Nat.zero_lt_one
  | @ends pass =>
      have := pass.two_le_left
      simp only [Pc.left]
      omega
  | reports => simp [Pc.left, Pass.left]
  | retries => simp [Pc.left]
  | skips inside | finds inside | misses inside =>
      have := Pass.left_next inside
      simp only [Pc.left]
      omega
  | recvFails | recvCloses | receives | deletes | acceptFails | accepts | emplaces | watches | publishes
  | returns => simp [Pc.left]

theorem Moved.stop_eq {server after : TcpServer} {msg : List Byte} {pc : Pc} {label : Label} {task : Task}
    {events : List Event} (moved : Moved server msg pc label after task events) :
    after.stop = server.stop := by
  cases moved with
  | deletes => exact stop_deleteClient _ _
  | _ => rfl

theorem perform_stop (server : TcpServer) (call : Call) : (server.perform call).1.stop = server.stop := by
  cases call with
  | deleteClient => exact stop_deleteClient _ _
  | sendBcast | sendClientMessage | getClientInfo => rfl

/-- A thread that has not ended can go on: `Select` times out, `Recv` and `Accept` at least fail,
and callbacks return. -/
theorem exists_step (server : TcpServer) (task : Task) (unended : task.pc.left ≠ 0) :
    ∃ label after next events, label.ofThread = true ∧
      server.serverTask task label = some (after, next, events) := by
  obtain ⟨pc, msg⟩ := task
  cases pc with
  | exited => exact absurd rfl unended
  | loop =>
      refine ⟨.serverTask, ?_⟩
      cases stopped : server.stop <;> simp [serverTask, stopped, Label.ofThread]
  | scan pass =>
      refine ⟨.serverTask, ?_⟩
      simp only [serverTask, Label.ofThread]
      split_ifs <;> simp
  | select maxfds fds => exact ⟨.select 0 ∅, by simp [serverTask, Label.ofThread]⟩
  | recv pass => exact ⟨.recv (-1) [], by simp [serverTask, Label.ofThread]⟩
  | accept pass => exact ⟨.accept (-1) [] 0, by simp [serverTask, Label.ofThread]⟩
  | callback pass => exact ⟨.returns, by simp [serverTask, Label.ofThread]⟩
  | delete | emplace | watch | publish =>
      exact ⟨.serverTask, by simp [serverTask, Label.ofThread]⟩

end TcpServer

namespace System

open TcpServer

def left (system : System) : ℕ := (system.task.map (·.pc.left)).getD 0

structure Finishing (system : System) : Prop where
  stopped : system.server.stop = true
  alive : system.terminated = false

def draining : Draining step (fun label => label.isStart = false) (fun _ => Label.ofThread) where
  holds := Finishing
  left := left
  pays before label after events finishing once stepped := by
    obtain ⟨stopped, alive⟩ := finishing
    cases step_changed stepped with
    | @moves task next label server events running moved =>
        refine ⟨⟨moved.stop_eq.trans stopped, alive⟩, ?_⟩
        have shorter := moved.left_lt stopped
        have one := Bool.toNat_le label.ofThread
        simp only [left, running, Option.map_some, Option.getD_some]
        omega
    | calls => exact ⟨⟨(perform_stop _ _).trans stopped, alive⟩, le_refl _⟩
    | starts | terminates | startFails => cases once
    | stops => exact ⟨⟨rfl, alive⟩, le_refl _⟩
    | finishes => exact ⟨⟨stopped, alive⟩, Nat.zero_le _⟩
    | opens | closes => exact ⟨⟨stopped, alive⟩, le_refl _⟩

theorem exists_step {system : System} (alive : system.terminated = false) (unended : system.left ≠ 0) :
    ∃ label after events, label.isStart = false ∧ label.ofThread = true ∧
      step system label = some (after, events) := by
  cases running : system.task with
  | none => simp [left, running] at unended
  | some task =>
      simp only [left, running, Option.map_some, Option.getD_some] at unended
      obtain ⟨label, server, next, events, own, stepped⟩ := system.server.exists_step task unended
      refine ⟨label, { system with server, task := some next }, events, ?_, own, ?_⟩
      · cases label <;> first | rfl | cases own
      · cases label with
        | serverTask | select | recv | accept | returns => simp [step, alive, running, stepped]
        | call | start | stop | finish | opens | closes => cases own

theorem Finishing.finish {system : System} (finishing : Finishing system) (ended : system.left = 0) :
    step system .finish =
      some ({ system with server := system.server.closeSockets, task := none }, []) := by
  have joined : ∀ task ∈ system.task, task.pc = .exited := by
    intro task running
    simp only [left, Option.mem_def.mp running, Option.map_some, Option.getD_some] at ended
    exact Pc.left_eq_zero ended
  simp only [step, finishing.alive, finishing.stopped, true_and, Bool.false_eq_true, if_false]
  exact if_pos joined

end System

/-- A broadcast within its loop: the clients it is still to visit. -/
structure Holder where
  caller : TcpServer.Caller
  msg : List Byte
  rest : List ClientHandle

/-- The server, and the broadcast that holds its mutex. -/
structure Busy where
  system : System
  holder : Option Holder

namespace Busy

open TcpServer

inductive Label where
  | system (label : TcpServer.Label)
  /-- `sendBcast` has locked the mutex, and will visit the clients in this order. -/
  | locks (caller : Caller) (msg : List Byte) (order : List ClientHandle)
  /-- `Send` returns to the broadcast. -/
  | sends (sent : Sent)
  | unlocks

def locking (system : System) : TcpServer.Label → Bool
  | .serverTask => match system.task with
      | some ⟨.scan pass, _⟩ => pass.fd < pass.maxfds && pass.fd ∈ pass.readSet
      | some ⟨.delete _, _⟩ | some ⟨.emplace _ _ _ _, _⟩ => true
      | _ => false
  | .call _ _ | .finish => true
  | .select _ _ | .recv _ _ | .accept _ _ _ | .returns | .start _ _ | .stop | .opens _ | .closes _ => false

/-- A callback does not return before the broadcast that it has called. -/
def allows (busy : Busy) : TcpServer.Label → Bool
  | .call _ (.sendBcast _ _) => false
  | .returns => busy.holder.all fun holder => holder.caller ≠ .serverTask
  | label => busy.holder.isNone || !locking busy.system label

def step : Step Busy Label Event
  | busy, .system label =>
      if busy.allows label then
        (System.step busy.system label).map fun moved => ({ busy with system := moved.1 }, moved.2)
      else none
  | busy, .locks caller msg order =>
      if busy.system.terminated = false ∧ busy.holder.isNone ∧ (caller = .serverTask → busy.system.inCallback) ∧
          order.Perm busy.system.server.clients.keys then
        some ({ busy with holder := some ⟨caller, msg, order⟩ }, [])
      else none
  | busy, .sends sent =>
      match busy.holder with
      | some ⟨caller, msg, handle :: rest⟩ =>
          if busy.system.terminated then none
          else match busy.system.server.clients.lookup handle with
            | some client =>
                let clientRet := client.sendMsg msg sent
                if clientRet.success then some ({ busy with holder := some ⟨caller, msg, rest⟩ }, [])
                else some ({ busy with holder := none }, [.returned (.sent clientRet)])
            | none => some ({ busy with holder := some ⟨caller, msg, rest⟩ }, [])
      | _ => none
  | busy, .unlocks =>
      match busy.holder with
      | some ⟨_, _, []⟩ =>
          if busy.system.terminated then none
          else some ({ busy with holder := none }, [.returned (.sent .succeeded)])
      | _ => none

def Label.ofThread : Label → Bool
  | .system label => label.ofThread
  | .locks _ _ _ | .sends _ | .unlocks => false

def Label.ofHolder : Label → Bool
  | .sends _ | .unlocks => true
  | .system _ | .locks _ _ _ => false

def Label.isStart : Label → Bool
  | .system label => label.isStart
  | .locks _ _ _ | .sends _ | .unlocks => false

def unsent (busy : Busy) : ℕ := busy.holder.elim 0 fun holder => holder.rest.length + 1

/-- But for the steps of the system the server stays as it is. -/
theorem system_of_step {before after : Busy} {label : Label} {events : List Event}
    (stepped : step before label = some (after, events)) :
    (∃ own, label = .system own ∧ System.step before.system own = some (after.system, events)) ∨
      (∀ own, label ≠ .system own) ∧ after.system = before.system := by
  cases label with
  | system own =>
      simp only [step] at stepped
      split at stepped
      · obtain ⟨moved, same, rest⟩ := Option.map_eq_some_iff.mp stepped
        cases rest
        exact .inl ⟨own, rfl, same⟩
      · cases stepped
  | locks | sends | unlocks =>
      simp only [step] at stepped
      repeat' split at stepped
      all_goals cases stepped
      all_goals exact .inr ⟨by simp, rfl⟩

def draining : Draining step (fun label => label.isStart = false) (fun _ => Label.ofThread) where
  holds busy := busy.system.Finishing
  left busy := busy.system.left
  pays before label after events finishing once stepped := by
    rcases system_of_step stepped with ⟨own, rfl, moved⟩ | ⟨other, same⟩
    · exact System.draining.pays _ _ _ _ finishing once moved
    · have idle : label.ofThread = false := by
        cases label with
        | system own => exact absurd rfl (other own)
        | locks | sends | unlocks => rfl
      rw [same, idle]
      exact ⟨finishing, le_refl _⟩

theorem exists_unlocked (busy : Busy) (alive : busy.system.terminated = false) :
    ∃ sends last, Run step busy sends last ∧ (∀ taken ∈ sends, taken.label.ofHolder = true) ∧
      sends.length ≤ busy.unsent ∧ last = { busy with holder := none } := by
  obtain ⟨system, holder⟩ := busy
  have going : system.terminated = false := alive
  cases holder with
  | none => exact ⟨[], _, .nil, by simp, le_refl _, rfl⟩
  | some holder =>
      obtain ⟨caller, msg, rest⟩ := holder
      induction rest with
      | nil =>
          have unlocks : step ⟨system, some ⟨caller, msg, []⟩⟩ .unlocks = some (⟨system, none⟩, _) :=
            if_neg (by simpa using going)
          exact ⟨_, _, .single unlocks, by simp [Label.ofHolder], le_refl _, rfl⟩
      | cons handle rest ih =>
          obtain ⟨sends, last, run, own, short, rfl⟩ := ih alive
          -- Whatever `Send` returns, the loop goes on or is left.
          obtain ⟨next, events, stepped, goes⟩ : ∃ next events,
              step ⟨system, some ⟨caller, msg, handle :: rest⟩⟩ (.sends ⟨0, 0⟩) = some (next, events) ∧
                (next = ⟨system, some ⟨caller, msg, rest⟩⟩ ∨ next = ⟨system, none⟩) := by
            simp only [step, going, Bool.false_eq_true, if_false]
            split
            · split
              · exact ⟨_, _, rfl, .inl rfl⟩
              · exact ⟨_, _, rfl, .inr rfl⟩
            · exact ⟨_, _, rfl, .inl rfl⟩
          rcases goes with rfl | rfl
          · refine ⟨_, _, (Run.single stepped).append run, ?_, ?_, rfl⟩
            · simpa [Label.ofHolder] using own
            · simp only [unsent, Option.elim_some, List.singleton_append, List.length_cons] at short ⊢
              omega
          · exact ⟨_, _, .single stepped, by simp [Label.ofHolder], by simp [unsent], rfl⟩

/-- With the mutex free, the thread takes the steps it takes without one. -/
theorem run_of_free {start final : System} {steps : List (Taken System TcpServer.Label Event)}
    (run : Run System.step start steps final) (own : ∀ taken ∈ steps, taken.label.ofThread = true) :
    Run step ⟨start, none⟩
      (steps.map fun taken => ⟨⟨taken.before, none⟩, .system taken.label, taken.events⟩) ⟨final, none⟩ := by
  induction run with
  | nil => exact .nil
  | @snoc steps before after label events _ stepped ih =>
      rw [List.forall_mem_append] at own
      have mine : label.ofThread = true := own.2 _ (List.mem_singleton_self _)
      have allowed : allows ⟨before, none⟩ label = true := by
        cases label with
        | serverTask | select | recv | accept | returns => rfl
        | call | start | stop | finish | opens | closes => cases mine
      rw [List.map_append]
      refine .snoc (ih own.1) ?_
      simp only [step, allowed, if_true, stepped, Option.map_some]

end Busy

namespace TcpClient

def Label.isConnect : Label → Bool
  | .connectTo _ _ => true
  | _ => false

def Pc.left : Pc → ℕ
  | .exited => 0
  | .loop | .leaving => 1
  | .callback | .disconnect _ => 2
  | .publish _ => 3
  | .recv => 4
  | .select => 5

theorem left_lt {client after : TcpClient} {pc next : Pc} {label : Label} {events : List Event}
    (stepped : client.receiveTask pc label = some (after, next, events)) (stopped : client.stop = true) :
    next.left < pc.left ∧ after.stop = true := by
  cases label with
  | receiveTask =>
      cases pc <;> cases stepped
      · simp [stopped, Pc.left]
      · exact ⟨by simp [Pc.left], stopped⟩
      · exact ⟨by simp [Pc.left], stopped⟩
  | select selectRet ready =>
      cases pc with
      | select =>
          simp only [receiveTask, stopped] at stepped
          split at stepped <;> cases stepped
          · exact ⟨by simp [Pc.left], stopped⟩
          · cases ready <;> exact ⟨by simp [Pc.left], stopped⟩
      | _ => cases stepped
  | recv number msg errno =>
      cases pc with
      | recv =>
          simp only [receiveTask] at stepped
          split at stepped
          · split at stepped <;> cases stepped
            · exact ⟨by simp [Pc.left], rfl⟩
            · exact ⟨by simp [Pc.left], stopped⟩
          · cases stepped
      | _ => cases stepped
  | returns =>
      cases pc <;> cases stepped
      all_goals exact ⟨by simp [Pc.left], stopped⟩
  | connectTo | stop | finish => cases stepped

theorem exists_step (client : TcpClient) (pc : Pc) (unended : pc.left ≠ 0) :
    ∃ label after next events, label.ofThread = true ∧
      client.receiveTask pc label = some (after, next, events) := by
  cases pc with
  | exited => exact absurd rfl unended
  | loop | publish | disconnect =>
      exact ⟨.receiveTask, by simp [receiveTask, Label.ofThread]⟩
  | select => exact ⟨.select 0 false, by simp [receiveTask, Label.ofThread]⟩
  | recv => exact ⟨.recv (-1) [] 0, by simp [receiveTask, Label.ofThread]⟩
  | callback | leaving => exact ⟨.returns, by simp [receiveTask, Label.ofThread]⟩

end TcpClient

namespace ClientSystem

open TcpClient

def left (system : ClientSystem) : ℕ := (system.task.map (·.left)).getD 0

structure Finishing (system : ClientSystem) : Prop where
  stopped : system.client.stop = true
  alive : system.terminated = false

def draining : Draining step (fun label => label.isConnect = false) (fun _ => Label.ofThread) where
  holds := Finishing
  left := left
  pays before label after events finishing once stepped := by
    obtain ⟨stopped, alive⟩ := finishing
    cases step_changed stepped with
    | @moves pc next label client events own running moved =>
        obtain ⟨shorter, still⟩ := left_lt moved stopped
        refine ⟨⟨still, alive⟩, ?_⟩
        simp only [left, running, Option.map_some, Option.getD_some, own, Bool.toNat_true]
        omega
    | connects => cases once
    | stops => exact ⟨⟨rfl, alive⟩, le_refl _⟩
    | finishes => exact ⟨⟨stopped, alive⟩, Nat.zero_le _⟩

theorem exists_step {system : ClientSystem} (alive : system.terminated = false)
    (unended : system.left ≠ 0) :
    ∃ label after events, label.isConnect = false ∧ label.ofThread = true ∧
      step system label = some (after, events) := by
  cases running : system.task with
  | none => simp [left, running] at unended
  | some pc =>
      simp only [left, running, Option.map_some, Option.getD_some] at unended
      obtain ⟨label, client, next, events, own, stepped⟩ := system.client.exists_step pc unended
      refine ⟨label, { system with client, task := some next }, events, ?_, own, ?_⟩
      · cases label <;> first | rfl | cases own
      · cases label with
        | receiveTask | select | recv | returns => simp [step, alive, running, stepped]
        | connectTo | stop | finish => cases own

theorem Finishing.finish {system : ClientSystem} (finishing : Finishing system) (ended : system.left = 0) :
    step system .finish =
      some ({ system with client := system.client.closeSocket, task := none }, []) := by
  have joined : ∀ pc ∈ system.task, pc = .exited := by
    intro pc running
    simp only [left, Option.mem_def.mp running, Option.map_some, Option.getD_some] at ended
    cases pc <;> first | rfl | cases ended
  simp only [step, finishing.alive, finishing.stopped, true_and, Bool.false_eq_true, if_false]
  exact if_pos joined

end ClientSystem

/-- Whatever the other threads do once `finish` has set the flag, the server's thread takes no more steps than
were left to it then. As soon as the calls of `Send` have returned to the broadcast that may hold the mutex, it
can take them, and `finish` joins it and closes the sockets; so does the client's, which has no mutex. -/
theorem finish_returns {start final : Busy} {steps} (run : Run Busy.step start steps final)
    (finishing : start.system.Finishing) (once : ∀ taken ∈ steps, taken.label.isStart = false)
    {start' final' : ClientSystem} {steps'} (run' : Run ClientSystem.step start' steps' final')
    (finishing' : start'.Finishing) (once' : ∀ taken ∈ steps', taken.label.isConnect = false) :
    (∃ sends rest last, Run Busy.step final (sends ++ rest) last ∧
      (∀ taken ∈ sends, taken.label.ofHolder = true) ∧ sends.length ≤ final.unsent ∧
      (∀ taken ∈ rest, taken.label.ofThread = true) ∧
      steps.countP (fun taken => taken.label.ofThread) + rest.length ≤ start.system.left ∧
      Busy.step last (.system .finish) = some ({ last with
        system := { last.system with server := last.system.server.closeSockets, task := none } }, [])) ∧
    ∃ rest last, Run ClientSystem.step final' rest last ∧
      (∀ taken ∈ rest, taken.label.ofThread = true) ∧
      steps'.countP (fun taken => taken.label.ofThread) + rest.length ≤ start'.left ∧
      ClientSystem.step last .finish =
        some ({ last with client := last.client.closeSocket, task := none }, []) := by
  constructor
  · obtain ⟨holds, bound⟩ := Busy.draining.count_le run once finishing
    obtain ⟨sends, free, sending, own, short, rfl⟩ := final.exists_unlocked holds.alive
    obtain ⟨rest, last, back, mine, done, ended, less⟩ := System.draining.exists_done holds
      fun system (holds : system.Finishing) unended => System.exists_step holds.alive unended
    refine ⟨sends, _, _, sending.append (Busy.run_of_free back mine), own, short, ?_, ?_, ?_⟩
    · intro taken member
      obtain ⟨inner, among, rfl⟩ := List.mem_map.mp member
      exact mine inner among
    · rw [List.length_map]
      exact (Nat.add_le_add_left less _).trans bound
    · have returned := System.Finishing.finish done ended
      simp [Busy.step, Busy.allows, returned]
  · obtain ⟨rest', last', back', own', holds', ended', short'⟩ :=
      ClientSystem.draining.completes run' once' finishing'
        fun system (holds : system.Finishing) unended => ClientSystem.exists_step holds.alive unended
    exact ⟨rest', last', back', own', short', ClientSystem.Finishing.finish holds' ended'⟩

/-- A server that is finished while its thread is about to serve a client and another thread's broadcast waits
to send to it, and a client that is finished while it has data to receive. -/
theorem finish_returns_serving : (∃ start steps final sends rest last, Run Busy.step start steps final ∧
      Run Busy.step final (sends ++ rest) last ∧ start.holder.isNone ∧ final.unsent = 2 ∧ sends.length ≤ 2 ∧
      steps.countP (fun taken => taken.label.ofThread) + rest.length ≤ start.system.left ∧
      Busy.step last (.system .finish) = some ({ last with
        system := { last.system with server := last.system.server.closeSockets, task := none } }, [])) ∧
    ∃ start steps final rest last, Run ClientSystem.step start steps final ∧
      Run ClientSystem.step final rest last ∧ final.task = some (.publish [7]) ∧
      steps.countP (fun taken => taken.label.ofThread) + rest.length ≤ start.left ∧
      ClientSystem.step last .finish =
        some ({ last with client := last.client.closeSocket, task := none }, []) := by
  have computed : (exec Busy.step ⟨.boot [0, 1, 2], none⟩ ((.start (System.listening 3) [] ::
      System.acceptPass 4 0 ++ [.serverTask, .select 1 {4}, .stop] : List TcpServer.Label).map .system)).any
        (fun (_, start) => start.holder.isNone && (start.system.server.stop && !start.system.terminated) &&
          (exec Busy.step start (List.replicate 4 (.system .serverTask) ++ [.locks .otherThread [1] [4]])).any
            fun (steps, final) => decide (final.unsent = 2) &&
              steps.all fun taken => !taken.label.isStart) = true := by
    decide +kernel
  have computed' : (exec ClientSystem.step .boot [.connectTo [] ⟨0, 3, 0, 0, 0, 0, 0⟩, .receiveTask,
      .select 1 true, .stop]).any (fun (_, start) => start.client.stop && !start.terminated &&
        (exec ClientSystem.step start [.recv 1 [7] 0]).any (fun (steps, final) =>
          decide (final.task = some (.publish [7])) &&
            steps.all fun taken => !taken.label.isConnect)) = true := by
    decide +kernel
  obtain ⟨_, start, _, checked⟩ := exists_run_of_exec computed
  obtain ⟨_, start', _, checked'⟩ := exists_run_of_exec computed'
  simp only [Bool.and_eq_true, Bool.not_eq_true'] at checked checked'
  obtain ⟨⟨idle, stopped, alive⟩, computed⟩ := checked
  obtain ⟨⟨stopped', alive'⟩, computed'⟩ := checked'
  obtain ⟨steps, final, run, checked⟩ := exists_run_of_exec computed
  obtain ⟨steps', final', run', checked'⟩ := exists_run_of_exec computed'
  simp only [Bool.and_eq_true, List.all_eq_true, Bool.not_eq_true', decide_eq_true_eq]
    at checked checked'
  obtain ⟨⟨sends, rest, last, back, -, short, -, bound, returned⟩, rest', last', back', -, bound', returned'⟩ :=
    finish_returns run ⟨stopped, alive⟩ checked.2 run' ⟨stopped', alive'⟩ checked'.2
  exact ⟨⟨start, steps, final, sends, rest, last, run, back, idle, checked.1, checked.1 ▸ short, bound, returned⟩,
    start', steps', final', rest', last', run', back', checked'.1, bound', returned'⟩

end ZmqPlayground
