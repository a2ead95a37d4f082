import ZmqPlayground.Common.TcpClient

/-! What the receive thread of a client hands to its application, over the whole life of the
client.

The flag that ends the thread is never cleared, so that a client that has been finished, or
has lost its peer, receives nothing any more, however often it is connected again.
-/

set_option autoImplicit false

namespace ZmqPlayground

open Library
open Library.Runs

namespace TcpClient

def Event.ofThread : Event → Bool
  | .recv _ _ | .onReceiveData _ | .onDisconnect _ => true
  | .connected _ => false

def reception (msg : List Byte) : List Event := [.recv msg.length msg, .onReceiveData msg]

inductive Reason (numOfBytesReceived : Int) : SocketRet → Prop where
  | closed (zero : numOfBytesReceived = 0) :
      Reason numOfBytesReceived { SocketRet.fresh with msg := "Server closed connection".toList }
  | failed {errno : Int} (negative : numOfBytesReceived < 0) :
      Reason numOfBytesReceived (.failed "Error: recv() failed: " errno)

def Fits (msg : List Byte) : Prop := msg ≠ [] ∧ msg.length ≤ maxPacketSize

/-- What has happened since the last piece that was published. -/
inductive Ending : List Event → Prop where
  | none : Ending []
  | received {msg : List Byte} (fits : Fits msg) : Ending [.recv msg.length msg]
  | failed {number : Int} (low : number < 1) : Ending [.recv number []]
  | disconnected {number : Int} {ret : SocketRet} (low : number < 1) (reason : Reason number ret) :
      Ending [.recv number [], .onDisconnect ret]

inductive Received (stop : Bool) : Pc → Pc → Bool → List Event → Prop where
  | goes {pc next : Pc} (here : pc = .loop ∨ pc = .select ∨ pc = .callback)
      (there : next = .loop ∨ next = .select ∨ next = .recv ∨ next = .exited ∧ stop = true)
      (stays : pc = .loop → next = if stop then .exited else .select) :
      Received stop pc next stop []
  | recvs {msg : List Byte} (fits : Fits msg) :
      Received stop .recv (.publish msg) stop [.recv msg.length msg]
  | fails {number : Int} {ret : SocketRet} (low : number < 1) (reason : Reason number ret) :
      Received stop .recv (.disconnect ret) true [.recv number []]
  | publishes {msg : List Byte} : Received stop (.publish msg) .callback stop [.onReceiveData msg]
  | disconnects {ret : SocketRet} : Received stop (.disconnect ret) .leaving stop [.onDisconnect ret]
  | leaves : Received stop .leaving .exited stop []

theorem receiveTask_received {client after : TcpClient} {pc next : Pc} {label : Label}
    {events : List Event} (stepped : client.receiveTask pc label = some (after, next, events)) :
    Received client.stop pc next after.stop events := by
  cases label with
  | receiveTask =>
      cases pc <;> cases stepped
      · refine .goes (.inl rfl) ?_ fun _ => rfl
        cases client.stop <;> simp
      · exact .publishes
      · exact .disconnects
  | select selectRet ready =>
      cases pc with
      | select =>
          simp only [receiveTask] at stepped
          split at stepped <;> cases stepped
          · refine .goes (.inr (.inl rfl)) ?_ (by simp)
            cases client.stop <;> simp
          · refine .goes (.inr (.inl rfl)) ?_ (by simp)
            cases ready <;> simp
      | _ => cases stepped
  | recv number msg errno =>
      cases pc with
      | recv =>
          simp only [receiveTask] at stepped
          split at stepped
          · rename_i result
            split at stepped <;> cases stepped
            · rename_i low
              obtain rfl : msg = [] := by
                rcases result with ⟨length, -⟩ | ⟨-, empty⟩
                · exact List.length_eq_zero_iff.mp (by omega)
                · exact empty
              refine .fails low ?_
              split
              · rename_i zero
                exact .closed zero
              · rename_i nonzero
                exact .failed (by omega)
            · rename_i positive
              rcases result with ⟨rfl, fits⟩ | ⟨negative, -⟩
              · refine .recvs ⟨?_, fits⟩
                rintro rfl
                simp at positive
              · omega
          · cases stepped
      | _ => cases stepped
  | returns =>
      cases pc <;> cases stepped
      · exact .goes (.inr (.inr rfl)) (.inl rfl) (by simp)
      · exact .leaves
  | connectTo | stop | finish => cases stepped

theorem Received.acts {stop set : Bool} {pc next : Pc} {events : List Event}
    (moved : Received stop pc next set events) : events.filter Event.ofThread = events := by
  cases moved <;> rfl

theorem Received.of_stopped {set : Bool} {pc next : Pc} {events : List Event}
    (moved : Received true pc next set events) (here : pc = .loop ∨ pc = .leaving ∨ pc = .exited) :
    next = .exited ∧ set = true ∧ events = [] := by
  -- With the flag set, the loop is left at its top.
  cases moved with
  | goes top _ stays =>
      have left : pc = .loop := by
        rcases top with rfl | rfl | rfl
        · rfl
        all_goals simp at here
      exact ⟨stays left, rfl, rfl⟩
  | leaves => exact ⟨rfl, rfl, rfl⟩
  | recvs | fails | publishes | disconnects => simp at here

end TcpClient

namespace ClientSystem

open TcpClient

/-- Where the thread stands between the pieces it publishes. -/
inductive Phase (system : ClientSystem) : List Event → Prop where
  | idle (idle : system.task = none) : Phase system []
  | reading {pc : Pc} (running : system.task = some pc)
      (here : pc = .loop ∨ pc = .select ∨ pc = .recv ∨ pc = .callback) : Phase system []
  | received {msg : List Byte} (running : system.task = some (.publish msg)) (fits : Fits msg) :
      Phase system [.recv msg.length msg]
  | failed {number : Int} {ret : SocketRet} (running : system.task = some (.disconnect ret))
      (stopped : system.client.stop = true) (low : number < 1) (reason : Reason number ret) :
      Phase system [.recv number []]
  | stopped {rest : List Event} (stopped : system.client.stop = true)
      (ended : ∀ pc ∈ system.task, pc = .loop ∨ pc = .leaving ∨ pc = .exited) (ending : Ending rest) :
      Phase system rest

theorem Phase.ending {system : ClientSystem} {rest : List Event} (phase : Phase system rest) :
    Ending rest := by
  cases phase with
  | idle | reading => exact .none
  | received _ fits => exact .received fits
  | failed _ _ low => exact .failed low
  | stopped _ _ ending => exact ending

/-- The acts of the thread are pieces that were received and published, and what followed the last
of them. -/
def Receptions (acts : List Event) (system : ClientSystem) : Prop :=
  ∃ (pieces : List (List Byte)) (rest : List Event), acts = pieces.flatMap reception ++ rest ∧
    (∀ msg ∈ pieces, Fits msg) ∧ Phase system rest

theorem Receptions.moved {acts : List Event} {before : ClientSystem} (receptions : Receptions acts before)
    {client : TcpClient} {pc next : Pc} {events : List Event} (running : before.task = some pc)
    (moved : Received before.client.stop pc next client.stop events) :
    Receptions (acts ++ events) { before with client, task := some next } := by
  obtain ⟨pieces, rest, rfl, fit, phase⟩ := receptions
  generalize stopped : client.stop = stop at moved
  cases phase with
  | idle idle =>
      rw [idle] at running
      cases running
  | reading same here =>
      obtain rfl := Option.some.inj (same.symm.trans running)
      cases moved with
      | goes _ there =>
          refine ⟨pieces, [], by simp, fit, ?_⟩
          rcases there with rfl | rfl | rfl | ⟨rfl, set⟩
          · exact .reading rfl (.inl rfl)
          · exact .reading rfl (.inr (.inl rfl))
          · exact .reading rfl (.inr (.inr (.inl rfl)))
          · exact .stopped (stopped.trans set) (by simp) .none
      | @recvs msg fits => exact ⟨pieces, [.recv msg.length msg], by simp, fit, .received rfl fits⟩
      | @fails number ret low reason =>
          exact ⟨pieces, [.recv number []], by simp, fit, .failed rfl stopped low reason⟩
      | publishes | disconnects | leaves => simp at here
  | @received msg same fits =>
      obtain rfl := Option.some.inj (same.symm.trans running)
      cases moved with
      | goes here => simp at here
      | publishes =>
          refine ⟨pieces ++ [msg], [], by simp [reception], ?_, .reading rfl (by simp)⟩
          simpa [or_imp, forall_and] using ⟨fit, fits⟩
  | @failed number ret same set low reason =>
      obtain rfl := Option.some.inj (same.symm.trans running)
      cases moved with
      | goes here => simp at here
      | disconnects =>
          exact ⟨pieces, [.recv number [], .onDisconnect ret], by simp, fit,
            .stopped (stopped.trans set) (by simp) (.disconnected low reason)⟩
  | stopped set ended ending =>
      rw [set] at moved
      obtain ⟨rfl, rfl, rfl⟩ := moved.of_stopped (ended pc running)
      exact ⟨pieces, rest, by simp, fit, .stopped stopped (by simp) ending⟩

theorem Receptions.of_still {acts : List Event} {before after : ClientSystem}
    (receptions : Receptions acts before) (still : ∀ rest, Phase before rest → Phase after rest) :
    Receptions acts after := by
  obtain ⟨pieces, rest, rfl, fit, phase⟩ := receptions
  exact ⟨pieces, rest, rfl, fit, still rest phase⟩

theorem step_connectTo {before after : ClientSystem} {remoteIp : Str} {calls : ConnectCalls}
    {events : List Event} (stepped : step before (.connectTo remoteIp calls) = some (after, events)) :
    after.client.stop = before.client.stop ∧ events.filter Event.ofThread = [] ∧
      (after.task = before.task ∨ before.task = none ∧ after.task = some .loop) := by
  have flag := (connectTo_cases remoteIp calls before.client).1
  unfold step at stepped
  split at stepped
  · cases stepped
  · simp only at stepped
    split at stepped
    · cases stepped
    · split at stepped
      · split at stepped <;> cases stepped
        · exact ⟨flag, rfl, .inl rfl⟩
        · rename_i idle
          exact ⟨flag, rfl, .inr ⟨by simpa using idle, rfl⟩⟩
      · cases stepped
        exact ⟨flag, rfl, .inl rfl⟩

theorem step_finish {before after : ClientSystem} {events : List Event}
    (stepped : step before .finish = some (after, events)) :
    events = [] ∧ after.client.stop = true ∧ after.task = none ∧ before.client.stop = true ∧
      ∀ pc ∈ before.task, pc = .exited := by
  unfold step at stepped
  split at stepped
  · cases stepped
  · simp only at stepped
    split at stepped <;> cases stepped
    rename_i joined
    exact ⟨rfl, joined.1, rfl, joined⟩

theorem Receptions.step {acts events : List Event} {before after : ClientSystem} {label : Label}
    (receptions : Receptions acts before) (stepped : step before label = some (after, events)) :
    Receptions (acts ++ events.filter Event.ofThread) after := by
  cases label with
  | connectTo remoteIp calls =>
      obtain ⟨flag, quiet, task⟩ := step_connectTo stepped
      rw [quiet, List.append_nil]
      refine receptions.of_still fun rest phase => ?_
      rcases task with same | ⟨idle, started⟩
      · cases phase with
        | idle idle => exact .idle (same.trans idle)
        | reading running here => exact .reading (same.trans running) here
        | received running fits => exact .received (same.trans running) fits
        | failed running stopped low reason =>
            exact .failed (same.trans running) (flag.trans stopped) low reason
        | stopped stopped ended ending => exact .stopped (flag.trans stopped) (same ▸ ended) ending
      · cases phase with
        | idle => exact .reading started (.inl rfl)
        | stopped stopped _ ending => exact .stopped (flag.trans stopped) (by simp [started]) ending
        | reading running | received running | failed running =>
            rw [idle] at running
            cases running
  | finish =>
      obtain ⟨rfl, stopped, none, -, -⟩ := step_finish stepped
      rw [List.filter_nil, List.append_nil]
      exact receptions.of_still fun rest phase => .stopped stopped (by simp [none]) phase.ending
  | stop =>
      cases step_changed stepped with
      | moves own => cases own
      | stops =>
          rw [List.filter_nil, List.append_nil]
          refine receptions.of_still fun rest phase => ?_
          cases phase with
          | idle idle => exact .idle idle
          | reading running here => exact .reading running here
          | received running fits => exact .received running fits
          | failed running stopped low reason => exact .failed running rfl low reason
          | stopped stopped ended ending => exact .stopped rfl ended ending
  | receiveTask | select | recv | returns =>
      cases step_changed stepped with
      | moves own running moved =>
          have received := receiveTask_received moved
          rw [received.acts]
          exact receptions.moved running received

/-- No thread reads, and none will: the flag ends the next one at the top of its loop. -/
structure Silent (system : ClientSystem) : Prop where
  stopped : system.client.stop = true
  ended : ∀ pc ∈ system.task, pc = .loop ∨ pc = .exited

theorem Silent.step {before after : ClientSystem} {label : Label} {events : List Event}
    (silent : Silent before) (stepped : ClientSystem.step before label = some (after, events)) :
    Silent after ∧ events.filter Event.ofThread = [] := by
  cases label with
  | connectTo remoteIp calls =>
      obtain ⟨flag, quiet, same | ⟨-, started⟩⟩ := step_connectTo stepped
      · exact ⟨⟨flag.trans silent.stopped, same ▸ silent.ended⟩, quiet⟩
      · exact ⟨⟨flag.trans silent.stopped, by simp [started]⟩, quiet⟩
  | finish =>
      obtain ⟨rfl, stopped, none, -, -⟩ := step_finish stepped
      exact ⟨⟨stopped, by simp [none]⟩, rfl⟩
  | stop =>
      cases step_changed stepped with
      | moves own => cases own
      | stops => exact ⟨⟨rfl, silent.ended⟩, rfl⟩
  | receiveTask | select | recv | returns =>
      cases step_changed stepped with
      | @moves pc next label client events own running moved =>
          have received := receiveTask_received moved
          rw [silent.stopped] at received
          obtain ⟨rfl, set, rfl⟩ := received.of_stopped ((silent.ended pc running).imp_right .inr)
          exact ⟨⟨set, by simp⟩, rfl⟩

/-- Over its whole life a client publishes the data `Recv` returns, each piece once, whole and in order.
A result without data is reported at most once, and it is the last thing that is. After `finish`
nothing is received. -/
theorem receptions {final : ClientSystem} {steps} (run : Run step boot steps final) :
    (∃ (pieces : List (List Byte)) (rest : List Event),
      (trace steps).filter Event.ofThread = pieces.flatMap reception ++ rest ∧
        (∀ msg ∈ pieces, Fits msg) ∧ Ending rest) ∧
    ∀ first taken second, steps = first ++ taken :: second → taken.label = .finish →
      (trace second).filter Event.ofThread = [] := by
  constructor
  · obtain ⟨pieces, rest, same, fit, phase⟩ := run.history (fun _ => True)
      (fun past system => Receptions (past.filter Event.ofThread) system)
      ⟨[], [], rfl, by simp, .idle rfl⟩
      (fun past before label after events receptions _ stepped => by
        rw [List.filter_append]
        exact receptions.step stepped) fun _ _ => trivial
    exact ⟨pieces, rest, same, fit, phase.ending⟩
  · rintro first taken second rfl finished
    obtain ⟨middle, front, back⟩ := run.cut
    obtain ⟨rfl, after, stepped, back⟩ := back.of_cons
    rw [finished] at stepped
    obtain ⟨-, stopped, none, -, -⟩ := step_finish stepped
    have kept := back.history (fun _ => True)
      (fun past system => Silent system ∧ past.filter Event.ofThread = [])
      ⟨⟨stopped, by simp [none]⟩, rfl⟩
      (fun past before label after events silent _ stepped => by
        obtain ⟨still, quiet⟩ := silent.1.step stepped
        exact ⟨still, by rw [List.filter_append, silent.2, quiet, List.append_nil]⟩)
      fun _ _ => trivial
    exact kept.2

/-- A client that receives a piece, loses its peer, is finished and connected again. -/
theorem receptions_reconnected : ∃ steps final, Run step boot steps final ∧
    (trace steps).countP Event.ofThread = 4 ∧ final.task = some .loop ∧
    (∃ (pieces : List (List Byte)) (rest : List Event),
      (trace steps).filter Event.ofThread = pieces.flatMap reception ++ rest ∧
        (∀ msg ∈ pieces, Fits msg) ∧ Ending rest) ∧
    ∀ first taken second, steps = first ++ taken :: second → taken.label = .finish →
      (trace second).filter Event.ofThread = [] := by
  have computed : (exec step boot [.connectTo [] ⟨0, 3, 0, 0, 0, 0, 0⟩, .receiveTask, .select 1 true,
      .recv 2 [7, 8] 0, .receiveTask, .returns, .receiveTask, .select 1 true, .recv 0 [] 0, .receiveTask,
      .returns, .stop, .finish, .connectTo [] ⟨0, 3, 0, 0, 0, 0, 0⟩]).any (fun (steps, final) =>
        (trace steps).countP Event.ofThread == 4 && decide (final.task = some .loop)) = true := by
    decide +kernel
  obtain ⟨steps, final, run, computed⟩ := exists_run_of_exec computed
  simp only [Bool.and_eq_true, beq_iff_eq, decide_eq_true_eq] at computed
  exact ⟨steps, final, run, computed.1, computed.2, receptions run⟩

end ClientSystem

end ZmqPlayground
