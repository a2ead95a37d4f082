import ZmqPlayground.Common.Descriptors

/-! The stop flag of a server and of a client over all their starts and finishes.

The flag is set by `finish`, and by the client's thread when the peer is gone. It is
cleared by the constructor only.
-/

set_option autoImplicit false

namespace ZmqPlayground

open Library
open Library.Runs

def TcpServer.Event.succeeds : TcpServer.Event → Bool
  | .started ret => ret.success
  | _ => false

def TcpClient.Event.succeeds : TcpClient.Event → Bool
  | .connected ret => ret.success
  | _ => false

namespace System

open TcpServer

def Starts (taken : Taken System Label Event) : Prop :=
  (match taken.label with
    | .start _ _ => taken.events.any Event.succeeds
    | _ => false) = true

instance (taken : Taken System Label Event) : Decidable (Starts taken) :=
  inferInstanceAs (Decidable (_ = true))

def Stops (taken : Taken System Label Event) : Prop := taken.label = .stop

instance (taken : Taken System Label Event) : Decidable (Stops taken) :=
  inferInstanceAs (Decidable (_ = _))

theorem step_stop {before after : System} {label : Label} {events : List Event}
    (stepped : step before label = some (after, events)) :
    after.server.stop = true ↔ before.server.stop = true ∨ Stops ⟨before, label, events⟩ := by
  have kept : after.server.stop = before.server.stop → label ≠ .stop →
      (after.server.stop = true ↔ before.server.stop = true ∨ Stops ⟨before, label, events⟩) := by
    intro same other
    rw [same]
    exact (or_iff_left other).symm
  cases step_changed stepped with
  | starts | terminates | startFails =>
      obtain ⟨server, -⟩ := step_start stepped
      exact kept (server ▸ (start_descriptors _ _).2.1) nofun
  | stops => exact iff_of_true rfl (.inr rfl)
  | finishes | opens | closes => exact kept rfl nofun
  | @calls caller call =>
      apply kept _ nofun
      cases call with
      | deleteClient handle => exact stop_deleteClient _ _
      | sendBcast | sendClientMessage | getClientInfo => rfl
  | moves _ moved =>
      apply kept moved.stop
      rintro rfl
      cases moved.own

end System

namespace ClientSystem

open TcpClient

def Connects (taken : Taken ClientSystem Label Event) : Prop :=
  (match taken.label with
    | .connectTo _ _ => taken.events.any Event.succeeds
    | _ => false) = true

instance (taken : Taken ClientSystem Label Event) : Decidable (Connects taken) :=
  inferInstanceAs (Decidable (_ = true))

/-- The client is finished, or has found its peer gone. -/
def Ends (taken : Taken ClientSystem Label Event) : Prop :=
  taken.label = .stop ∨ taken.label.Disconnects

instance (taken : Taken ClientSystem Label Event) : Decidable (Ends taken) :=
  inferInstanceAs (Decidable (_ ∨ _))

theorem step_stop {before after : ClientSystem} {label : Label} {events : List Event}
    (stepped : step before label = some (after, events)) :
    after.client.stop = true ↔ before.client.stop = true ∨ Ends ⟨before, label, events⟩ := by
  cases step_changed stepped with
  | connects =>
      rw [(connectTo_cases _ _ _).1]
      exact (or_iff_left (by simp [Ends, Label.Disconnects])).symm
  | stops => exact iff_of_true rfl (.inr (.inl rfl))
  | finishes => exact (or_iff_left (by simp [Ends, Label.Disconnects])).symm
  | moves own running moved =>
      rcases receiveTask_moved moved with ⟨goes, rfl⟩ | ⟨ends, rfl⟩
      · refine (or_iff_left (not_or.mpr ⟨?_, goes⟩)).symm
        rintro rfl
        cases own
      · exact iff_of_true rfl (.inr (.inr ends))

end ClientSystem

/-- After every successful start, or `connectTo`, the flag is clear until the next `finish`, or until
the peer disconnects, exactly if nothing is started, or connected, after such an end. -/
theorem stop_clear_iff {descriptors : List SOCKET}
    {steps : List (Taken System TcpServer.Label TcpServer.Event)} {final : System}
    (run : Run System.step (.boot descriptors) steps final)
    {steps' : List (Taken ClientSystem TcpClient.Label TcpClient.Event)} {final' : ClientSystem}
    (run' : Run ClientSystem.step .boot steps' final') :
    ((∀ first rest middle, steps = first ++ rest → Run System.step (.boot descriptors) first middle →
        Since System.Starts System.Stops first → middle.server.stop = false) ↔
      ∀ first taken rest, steps = first ++ taken :: rest → System.Starts taken →
        ∀ earlier ∈ first, ¬ System.Stops earlier) ∧
    ((∀ first rest middle, steps' = first ++ rest → Run ClientSystem.step .boot first middle →
        Since ClientSystem.Connects ClientSystem.Ends first → middle.client.stop = false) ↔
      ∀ first taken rest, steps' = first ++ taken :: rest → ClientSystem.Connects taken →
        ∀ earlier ∈ first, ¬ ClientSystem.Ends earlier) := by
  constructor
  · apply run.since_clear_iff rfl fun _ _ _ _ => System.step_stop
    rintro ⟨before, label, events⟩ started stopped
    cases stopped
    exact absurd started Bool.false_ne_true
  · apply run'.since_clear_iff rfl fun _ _ _ _ => ClientSystem.step_stop
    rintro ⟨before, label, events⟩ connected (stopped | ⟨number, msg, errno, gone, -⟩)
    · cases stopped
      exact absurd connected Bool.false_ne_true
    · cases gone
      exact absurd connected Bool.false_ne_true

/-- A server and a client that are started once go on. -/
theorem stop_clear_iff_running : (∃ steps final, Run System.step (.boot [0, 1, 2]) steps final ∧
      4 ∈ final.server.clients ∧ final.server.stop = false) ∧
    ∃ steps final, Run ClientSystem.step .boot steps final ∧ final.task = some .loop ∧
      final.client.stop = false := by
  have computed : (exec System.step (.boot [0, 1, 2]) (.start (System.listening 3) [] ::
      System.acceptPass 4 0)).any (fun (steps, final) => decide (4 ∈ final.server.clients) &&
        (decide (∀ taken ∈ steps, ¬ System.Stops taken) && (steps.head?.any fun taken =>
          decide (System.Starts taken)))) = true := by
    decide +kernel
  have computed' : (exec ClientSystem.step .boot [.connectTo [] (connecting 3), .receiveTask,
      .select 1 true, .recv 1 [7] 0, .receiveTask, .returns]).any (fun (steps, final) =>
        decide (final.task = some .loop) && (decide (∀ taken ∈ steps, ¬ ClientSystem.Ends taken) &&
          (steps.head?.any fun taken => decide (ClientSystem.Connects taken)))) = true := by
    decide +kernel
  obtain ⟨steps, final, run, checked⟩ := exists_run_of_exec computed
  obtain ⟨steps', final', run', checked'⟩ := exists_run_of_exec computed'
  simp only [Bool.and_eq_true, decide_eq_true_eq, Option.any_eq_true] at checked checked'
  obtain ⟨member, unstopped, taken, head, started⟩ := checked
  obtain ⟨atLoop, unended, taken', head', connected⟩ := checked'
  obtain ⟨rest, rfl⟩ := List.head?_eq_some_iff.mp head
  obtain ⟨rest', rfl⟩ := List.head?_eq_some_iff.mp head'
  have clear := stop_clear_iff run run'
  refine ⟨⟨_, final, run, member, ?_⟩, _, final', run', atLoop, ?_⟩
  · apply clear.1.mpr _ _ [] final (List.append_nil _).symm run
    · exact since_cons started fun later among => unstopped later (List.mem_cons_of_mem _ among)
    · intro first taken rest same _ earlier among
      exact unstopped earlier (same ▸ List.mem_append_left _ among)
  · apply clear.2.mpr _ _ [] final' (List.append_nil _).symm run'
    · exact since_cons connected fun later among => unended later (List.mem_cons_of_mem _ among)
    · intro first taken rest same _ earlier among
      exact unended earlier (same ▸ List.mem_append_left _ among)

/-- A server and a client are started a second time after they have been finished. -/
theorem restart_stopped : (∃ steps final, Run System.step (.boot [0, 1, 2]) steps final ∧
      (∃ taken, steps.getLast? = some taken ∧ System.Starts taken) ∧ final.server.stop = true) ∧
    ∃ steps final, Run ClientSystem.step .boot steps final ∧
      (∃ taken, steps.getLast? = some taken ∧ ClientSystem.Connects taken) ∧
        final.client.stop = true := by
  have computed : (exec System.step (.boot [0, 1, 2]) [.start (System.listening 3) [], .stop, .serverTask,
      .finish, .start (System.listening 3) []]).any (fun (steps, final) =>
        (steps.getLast?.any fun taken => decide (System.Starts taken)) && final.server.stop) = true := by
    decide +kernel
  have computed' : (exec ClientSystem.step .boot [.connectTo [] (connecting 3), .stop, .receiveTask,
      .finish, .connectTo [] (connecting 3)]).any (fun (steps, final) =>
        (steps.getLast?.any fun taken => decide (ClientSystem.Connects taken)) &&
          final.client.stop) = true := by
    decide +kernel
  obtain ⟨steps, final, run, checked⟩ := exists_run_of_exec computed
  obtain ⟨steps', final', run', checked'⟩ := exists_run_of_exec computed'
  simp only [Bool.and_eq_true, decide_eq_true_eq, Option.any_eq_true] at checked checked'
  exact ⟨⟨steps, final, run, checked⟩, steps', final', run', checked'⟩

end ZmqPlayground
