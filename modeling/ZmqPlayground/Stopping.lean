import Mathlib.Algebra.GroupWithZero.Nat
import ZmqPlayground.Library.Draining
import ZmqPlayground.Shutdown

/-! `ZmqStack::Stop` returns, and what the stack does after that.

Each thread is joined after its flag has been set, so that it takes at most one more message.
The receiver's flag is set late: until the subscriber has been joined it goes on as before.
Which callbacks return is left open: that of a `NetStack` waits for all its clients to take the
message, that of a `ConvStack` for a mutex.
-/

set_option autoImplicit false

namespace ZmqPlayground

open Library Library.Runs

namespace Stack

def most : Stack → ℕ
  | .zmqStack _ => 0
  | .convStack stack _ => (stack.conversionMap.entries.map fun entry => entry.2.length).sum
  | .netStack pubTopics => pubTopics.length

theorem outputs_length_le (stack : ConvStack) (topic : Str) :
    (stack.outputs topic).length ≤ (stack.conversionMap.entries.map fun entry => entry.2.length).sum := by
  rw [ConvStack.outputs]
  cases found : stack.conversionMap.lookup topic with
  | none => exact Nat.zero_le _
  | some topics =>
      obtain ⟨before, rest, same⟩ := List.append_of_mem (AList.mem_lookup_iff.mp found)
      rw [same, List.map_append, List.sum_append, List.map_cons, List.sum_cons, Option.getD_some]
      exact Nat.le_add_left_of_le (Nat.le_add_right _ _)

theorem publishesMessage_length_le (stack : Stack) (channel : Channel) (msgs : Message) :
    (stack.publishesMessage channel msgs).length ≤ stack.most := by
  cases stack with
  | zmqStack | netStack => exact Nat.zero_le _
  | convStack stack =>
      simp only [publishesMessage]
      split
      · rw [ConvStack.convert_eq, ZmqStack.publish, List.length_map]
        exact outputs_length_le _ _
      · exact Nat.zero_le _

theorem publishes_length_le (stack : Stack) (source : Source) (input : Input) :
    (stack.publishes source input).length ≤ stack.most := by
  cases input with
  | message msgs =>
      cases source with
      | subscriber | receiver => exact publishesMessage_length_le _ _ _
      | server => exact Nat.zero_le _
  | clientData data =>
      cases source with
      | subscriber | receiver => exact Nat.zero_le _
      | server =>
          cases stack with
          | zmqStack | convStack => exact Nat.zero_le _
          | netStack pubTopics => simp [publishes, NetStack.onReceiveClientData, ZmqStack.publish, most]

end Stack

/-- The steps a thread takes to its end once its flag is set. -/
def Worker.left (stack : Stack) : Worker → ℕ
  | .exited => 0
  | .looping => 1
  | .publishing due => due.length + 2
  | .entering _ => stack.most + 3
  | .polling => stack.most + 4

namespace Stopper

def waitsFor : Stopper → Option Source
  | .joinSubscriber => some .subscriber
  | .joinReceiver => some .receiver
  | .running | .finishing | .closePublisher | .stopReceiver | .stopped => none

def stops : Stopper → Bool
  | .running | .finishing => false
  | .joinSubscriber | .closePublisher | .stopReceiver | .joinReceiver | .stopped => true

def closed : Stopper → Bool
  | .stopReceiver | .joinReceiver | .stopped => true
  | .running | .finishing | .joinSubscriber | .closePublisher => false

def left (stack : Stack) (workers : Source → Worker) : Stopper → ℕ
  | .joinSubscriber => (workers .subscriber).left stack + stack.most + 8
  | .closePublisher => stack.most + 7
  | .stopReceiver => stack.most + 6
  | .joinReceiver => (workers .receiver).left stack + 1
  | .running | .finishing | .stopped => 0

variable {stack : Stack} {workers : Source → Worker}

theorem left_update {source : Source} {worker : Worker} (stopper : Stopper)
    (shorter : stopper.waitsFor = some source → worker.left stack < (workers source).left stack) :
    stopper.left stack (Function.update workers source worker) + (decide (stopper.waitsFor = some source)).toNat ≤
      stopper.left stack workers := by
  cases stopper with
  | joinSubscriber =>
      by_cases same : source = .subscriber
      · subst same
        have less := shorter rfl
        simp only [left, waitsFor, Function.update_self, decide_true, Bool.toNat_true]
        omega
      · simp [left, waitsFor, Ne.symm same]
  | joinReceiver =>
      by_cases same : source = .receiver
      · subst same
        have less := shorter rfl
        simp only [left, waitsFor, Function.update_self, decide_true, Bool.toNat_true]
        omega
      · simp [left, waitsFor, Ne.symm same]
  | running | finishing | closePublisher | stopReceiver | stopped => simp [left, waitsFor]

end Stopper

namespace Shutdown

/-- A step that `Stop` takes itself or waits for. -/
def waited (state : Shutdown) : Label → Bool
  | .stopper => true
  | .worker source | .polls source _ => decide (state.stopper.waitsFor = some source)
  | .finish | .stop => false

def left (stack : Stack) (state : Shutdown) : ℕ :=
  if state.terminated then 0 else state.stopper.left stack state.workers

/-- The thread is in a callback that does not return. -/
def stuck (returns : Source → Input → Bool) (state : Shutdown) (source : Source) : Bool :=
  match state.workers source with
  | .entering input => !returns source input
  | .looping | .polling | .publishing _ | .exited => false

/-- The steps, where some callbacks do not return: in a `NetStack`, while a client takes nothing of a broadcast. -/
def blocking (returns : Source → Input → Bool) (stack : Stack) : Step Shutdown Label Sent := fun state label =>
  match label with
  | .worker source => if state.stuck returns source then none else step stack state label
  | .finish | .stop | .stopper | .polls _ _ => step stack state label

/-- Neither of the threads that `Stop` joins is stuck. -/
def Free (returns : Source → Input → Bool) (state : Shutdown) : Prop :=
  ∀ source, source ≠ .server → state.stuck returns source = false

def Label.takesUp : Label → Bool
  | .polls _ (some _) => true
  | .polls _ none | .finish | .stop | .stopper | .worker _ => false

/-- No thread has more to publish than one input gives rise to. -/
def Short (stack : Stack) (state : Shutdown) : Prop :=
  ∀ source, ((state.workers source).due stack source).length ≤ stack.most

/-- What holds from the call of `Stop` on. -/
structure Stopping (stack : Stack) (state : Shutdown) : Prop where
  called : state.stopper.stops = true
  joined : Joined state
  flagged : ∀ source, state.stopper.waitsFor = some source → state.flags source = true
  closed : state.stopper.closed = true → state.socketOpen = false
  ended : state.stopper = .stopped → state.workers .receiver = .exited
  short : Short stack state

theorem workers_setWorker (state : Shutdown) (source : Source) (worker : Worker) (other : Source) :
    (state.setWorker source worker).workers other = if other = source then worker else state.workers other :=
  Function.update_apply _ _ _ _

theorem Stopping.left_le {stack : Stack} {state : Shutdown} (stopping : Stopping stack state) (source : Source) :
    (state.workers source).left stack ≤ stack.most + 4 := by
  cases here : state.workers source with
  | publishing due =>
      have short := stopping.short source
      rw [here, Worker.due] at short
      simp only [Worker.left]
      omega
  | looping | polling | entering | exited => simp [Worker.left]

section Step
variable {stack : Stack} {before after : Shutdown} {label : Label} {events : List Sent}
  {returns : Source → Input → Bool}

theorem step_of_blocking (blocked : blocking returns stack before label = some (after, events)) :
    step stack before label = some (after, events) ∧
      ∀ source, label = .worker source → before.stuck returns source = false := by
  cases label with
  | worker source =>
      simp only [blocking] at blocked
      split at blocked
      · cases blocked
      · rename_i free
        refine ⟨blocked, ?_⟩
        rintro _ ⟨⟩
        simpa using free
  | finish | stop | stopper | polls => exact ⟨blocked, nofun⟩

theorem run_of_blocking {steps : List (Taken Shutdown Label Sent)} {start final : Shutdown}
    (run : Run (blocking returns stack) start steps final) : Run (step stack) start steps final :=
  run.mono fun _ _ _ blocked => (step_of_blocking blocked).1

theorem step_workers (stepped : step stack before label = some (after, events)) :
    after.workers = before.workers ∨ ∃ source worker,
      after.workers = Function.update before.workers source worker ∧
        (label = .worker source ∧ (∀ input, worker ≠ .entering input) ∨
          ∃ input, label = .polls source input ∧ before.workers source = .polling ∧
            worker = (input.map .entering).getD .looping) := by
  cases label with
  | worker source =>
      simp only [step] at stepped
      split at stepped
      · cases stepped
      · simp only [workerStep] at stepped
        repeat' split at stepped
        all_goals cases stepped
        all_goals first
          | exact .inl rfl
          | refine .inr ⟨source, _, rfl, .inl ⟨rfl, fun input => ?_⟩⟩
            simp
  | finish | stop =>
      cases step_moved stepped with
      | goes _ workers => exact .inl workers
  | stopper =>
      cases step_moved stepped with
      | goes _ workers => exact .inl workers
      | closes => exact .inl rfl
  | polls source input =>
      cases step_moved stepped with
      | goes other => simp at other
      | polls here => exact .inr ⟨source, _, rfl, .inr ⟨input, rfl, here, rfl⟩⟩

theorem Free.step (free : Free returns before) (none_new : label.takesUp = false)
    (stepped : Shutdown.step stack before label = some (after, events)) : Free returns after := by
  intro source other
  have still := free source other
  rcases step_workers stepped with same | ⟨changed, worker, same, cause⟩
  · rwa [stuck, same, ← stuck]
  · by_cases own : source = changed
    · subst own
      rw [stuck, same, Function.update_self]
      rcases cause with ⟨-, outside⟩ | ⟨input, rfl, -, rfl⟩
      · cases worker with
        | entering input => exact absurd rfl (outside input)
        | looping | polling | publishing | exited => rfl
      · cases input with
        | none => rfl
        | some => cases none_new
    · rwa [stuck, same, Function.update_of_ne own, ← stuck]

theorem stuck_step {source : Source} (stays : before.stuck returns source = true)
    (blocked : blocking returns stack before label = some (after, events)) : after.stuck returns source = true := by
  obtain ⟨stepped, free⟩ := step_of_blocking blocked
  rcases step_workers stepped with same | ⟨changed, worker, same, cause⟩
  · rwa [stuck, same, ← stuck]
  · have other : source ≠ changed := by
      rintro rfl
      rcases cause with ⟨rfl, -⟩ | ⟨input, rfl, polling, -⟩
      · cases stays.symm.trans (free _ rfl)
      · simp [stuck, polling] at stays
    rwa [stuck, same, Function.update_of_ne other, ← stuck]

theorem Short.moved (short : Short stack before) (moved : Moved stack before label after events) :
    Short stack after := by
  intro other
  have bounded := short other
  cases moved with
  | goes _ workers => rwa [workers]
  | closes => exact bounded
  | @works source worker _ same =>
      rw [due_setWorker, same]
      split
      · rename_i here
        exact here ▸ bounded
      · exact bounded
  | @sends source msgs due here =>
      rw [due_setWorker]
      split
      · rename_i this
        rw [this, here, Worker.due, List.length_cons] at bounded
        exact Nat.le_of_succ_le bounded
      · exact bounded
  | throws =>
      split
      · exact bounded
      · rw [due_setWorker]
        split
        · exact Nat.zero_le _
        · exact bounded
  | @polls source input =>
      rw [due_setWorker]
      split
      · cases input with
        | none => exact Nat.zero_le _
        | some input => exact stack.publishes_length_le source input
      · exact bounded

theorem Stopping.setWorker (stopping : Stopping stack before) {source : Source} {worker : Worker}
    (joined : Joined (before.setWorker source worker)) (short : Short stack (before.setWorker source worker))
    (alive : before.workers source ≠ .exited)
    (shorter : before.flags source = true → worker.left stack < (before.workers source).left stack)
    (going : before.terminated = false) :
    Stopping stack (before.setWorker source worker) ∧
      (before.setWorker source worker).left stack +
        (decide (before.stopper.waitsFor = some source)).toNat ≤ before.left stack := by
  refine ⟨⟨stopping.called, joined, stopping.flagged, stopping.closed, fun reached => ?_, short⟩, ?_⟩
  · have exited := stopping.ended reached
    rw [workers_setWorker, if_neg]
    · exact exited
    · rintro rfl
      exact alive exited
  · simp only [Shutdown.left, Shutdown.setWorker, going, Bool.false_eq_true, if_false]
    exact before.stopper.left_update fun waits => shorter (stopping.flagged source waits)

theorem Stopping.stopper (stopping : Stopping stack before) (joined : Joined after)
    (going : before.terminated = false) (stepped : before.stopperStep = some after) :
    Stopping stack after ∧ after.left stack + 1 ≤ before.left stack ∧ after.terminated = false := by
  have called := stopping.called
  unfold stopperStep at stepped
  split at stepped
  · rename_i here
    simp [here, Stopper.stops] at called
  · rename_i here
    split at stepped <;> cases stepped
    refine ⟨⟨rfl, joined, nofun, nofun, nofun, stopping.short⟩, ?_, going⟩
    simp only [Shutdown.left, going, here, Stopper.left, Bool.false_eq_true, if_false]
    omega
  · rename_i here
    cases stepped
    refine ⟨⟨rfl, joined, nofun, fun _ => rfl, nofun, stopping.short⟩, ?_, going⟩
    simp only [Shutdown.left, going, here, Stopper.left, Bool.false_eq_true, if_false]
    omega
  · rename_i here
    cases stepped
    have shut := stopping.closed (by rw [here]; rfl)
    refine ⟨⟨rfl, joined, ?_, fun _ => shut, nofun, stopping.short⟩, ?_, going⟩
    · rintro source waits
      cases waits
      exact Function.update_self Source.receiver true before.flags
    · have bounded := stopping.left_le .receiver
      simp only [Shutdown.left, setFlag, going, here, Stopper.left, Bool.false_eq_true, if_false]
      omega
  · rename_i here
    split at stepped <;> cases stepped
    rename_i exited
    have shut := stopping.closed (by rw [here]; rfl)
    refine ⟨⟨rfl, joined, nofun, fun _ => shut, fun _ => exited, stopping.short⟩, ?_, going⟩
    simp only [Shutdown.left, going, here, Stopper.left, Bool.false_eq_true, if_false]
    omega
  · cases stepped
  · cases stepped

theorem Stopping.terminated (stopping : Stopping stack before) (joined : Joined before) :
    Stopping stack { before with terminated := true } ∧
      ({ before with terminated := true } : Shutdown).left stack = 0 :=
  ⟨⟨stopping.called, ⟨joined.exited, joined.ordered⟩, stopping.flagged, stopping.closed, stopping.ended,
    stopping.short⟩, if_pos rfl⟩

theorem Stopping.worker (stopping : Stopping stack before) {source : Source}
    (joined : Joined after) (short : Short stack after) (going : before.terminated = false)
    (stepped : before.workerStep stack source = some (after, events)) :
    Stopping stack after ∧
      after.left stack + (decide (before.stopper.waitsFor = some source)).toNat ≤ before.left stack := by
  unfold workerStep at stepped
  split at stepped
  · rename_i here
    cases stepped
    refine stopping.setWorker joined short (by simp [here]) (fun flagged => ?_) going
    rw [here, if_pos flagged]
    exact Nat.zero_lt_one
  · rename_i input here
    cases stepped
    have few := stack.publishes_length_le source input
    refine stopping.setWorker joined short (by simp [here]) (fun _ => ?_) going
    rw [here]
    simp only [Worker.left]
    omega
  · rename_i msgs due here
    split at stepped
    · cases stepped
      refine stopping.setWorker joined short (by simp [here]) (fun _ => ?_) going
      rw [here]
      simp [Worker.left]
    · split at stepped
      · rename_i server
        cases stepped
        obtain ⟨still, none⟩ := stopping.terminated stopping.joined
        refine ⟨still, ?_⟩
        rw [none, server]
        cases stopper : before.stopper <;> simp [Stopper.waitsFor]
      · cases stepped
        refine stopping.setWorker joined short (by simp [here]) (fun _ => ?_) going
        rw [here]
        simp [Worker.left]
  · rename_i here
    cases stepped
    refine stopping.setWorker joined short (by simp [here]) (fun _ => ?_) going
    rw [here]
    simp [Worker.left]
  · cases stepped
  · cases stepped

/-- Once `Stop` has been called, every step of it and every step that it waits for leaves less to do. -/
theorem Stopping.step (stopping : Stopping stack before)
    (stepped : Shutdown.step stack before label = some (after, events)) :
    Stopping stack after ∧ after.left stack + (waited before label).toNat ≤ before.left stack := by
  have joined := stopping.joined.moved (step_moved stepped)
  have short := stopping.short.moved (step_moved stepped)
  have called := stopping.called
  simp only [Shutdown.step] at stepped
  split at stepped
  · cases stepped
  rename_i going
  rw [Bool.not_eq_true] at going
  cases label with
  | finish | stop =>
      simp only at stepped
      split at stepped <;> cases stepped
      rename_i here
      simp [here, Stopper.stops] at called
  | stopper =>
      obtain ⟨next, goes, same⟩ := Option.map_eq_some_iff.mp stepped
      cases same
      obtain ⟨still, less, -⟩ := stopping.stopper joined going goes
      exact ⟨still, less⟩
  | worker source => exact stopping.worker joined short going stepped
  | polls source input =>
      simp only at stepped
      split at stepped <;> cases stepped
      rename_i here
      refine stopping.setWorker joined short (by simp [here]) (fun _ => ?_) going
      rw [here]
      cases input <;> simp [Worker.left]

theorem exists_worker_step {source : Source} (going : before.terminated = false)
    (alive : before.workers source ≠ .exited) (waits : before.stopper.waitsFor = some source)
    (free : before.stuck returns source = false) :
    ∃ label after events, label.takesUp = false ∧ waited before label = true ∧
      blocking returns stack before label = some (after, events) := by
  have works (goes : (before.workerStep stack source).isSome) :
      ∃ label after events, label.takesUp = false ∧ waited before label = true ∧
        blocking returns stack before label = some (after, events) := by
    obtain ⟨⟨after, events⟩, goes⟩ := Option.isSome_iff_exists.mp goes
    exact ⟨.worker source, after, events, rfl, by simp [waited, waits],
      by simp [blocking, free, Shutdown.step, going, goes]⟩
  cases here : before.workers source with
  | exited => exact absurd here alive
  | polling =>
      refine ⟨.polls source none, before.setWorker source .looping, [], rfl, by simp [waited, waits], ?_⟩
      simp [blocking, Shutdown.step, going, here]
  | looping | entering => exact works (by simp [workerStep, here])
  | publishing due =>
      cases due with
      | nil => exact works (by simp [workerStep, here])
      | cons msgs due =>
          apply works
          simp only [workerStep, here]
          split_ifs <;> rfl

/-- As long as `Stop` has not returned, it can go on, or the thread it waits for can if it is not stuck. -/
theorem exists_step (free : Free returns before) (unfinished : before.left stack ≠ 0) :
    ∃ label after events, label.takesUp = false ∧ waited before label = true ∧
      blocking returns stack before label = some (after, events) := by
  have going : before.terminated = false := by
    by_contra ended
    exact unfinished (if_pos (by simpa using ended))
  have stops : (∃ next, before.stopperStep = some next) →
      ∃ label after events, label.takesUp = false ∧ waited before label = true ∧
        blocking returns stack before label = some (after, events) := by
    rintro ⟨next, goes⟩
    exact ⟨.stopper, next, [], rfl, rfl, by simp [blocking, Shutdown.step, going, goes]⟩
  cases here : before.stopper with
  | running | finishing | stopped => simp [Shutdown.left, here, Stopper.left] at unfinished
  | closePublisher | stopReceiver => exact stops (by simp [stopperStep, here])
  | joinSubscriber =>
      by_cases exited : before.workers .subscriber = .exited
      · exact stops (by simp [stopperStep, here, exited])
      · exact exists_worker_step going exited (by rw [here]; rfl) (free _ nofun)
  | joinReceiver =>
      by_cases exited : before.workers .receiver = .exited
      · exact stops (by simp [stopperStep, here, exited])
      · exact exists_worker_step going exited (by rw [here]; rfl) (free _ nofun)

def draining (stack : Stack) : Draining (step stack) (fun _ => True) waited where
  holds := Stopping stack
  left := left stack
  pays _ _ _ _ stopping _ stepped := stopping.step stepped

def returning (returns : Source → Input → Bool) (stack : Stack) :
    Draining (blocking returns stack) (fun label => label.takesUp = false) waited where
  holds state := Stopping stack state ∧ Free returns state
  left := left stack
  pays _ _ _ _ holds none_new blocked := by
    obtain ⟨stepped, -⟩ := step_of_blocking blocked
    obtain ⟨stopping, less⟩ := (draining stack).pays _ _ _ _ holds.1 trivial stepped
    exact ⟨⟨stopping, holds.2.step none_new stepped⟩, less⟩

theorem Stopping.going (stopping : Stopping stack before) (own : waited before label = true)
    (stepped : Shutdown.step stack before label = some (after, events)) : after.terminated = false := by
  have joined := stopping.joined.moved (step_moved stepped)
  simp only [Shutdown.step] at stepped
  split at stepped
  · cases stepped
  rename_i going
  rw [Bool.not_eq_true] at going
  cases label with
  | finish | stop => cases own
  | stopper =>
      obtain ⟨next, goes, same⟩ := Option.map_eq_some_iff.mp stepped
      cases same
      exact (stopping.stopper joined going goes).2.2
  | polls source input =>
      simp only at stepped
      split at stepped <;> cases stepped
      exact going
  | worker source =>
      have other : source ≠ .server := by
        rintro rfl
        cases here : before.stopper <;> simp [waited, here, Stopper.waitsFor] at own
      simp only [workerStep] at stepped
      repeat' split at stepped
      all_goals first
        | cases stepped
          exact going
        | cases stepped

/-- Stopped: nothing of the stack is left to publish but a TCP server, and that on a closed socket. -/
structure Stopped (state : Shutdown) : Prop where
  stopped : state.stopper = .stopped
  subscriber : state.workers .subscriber = .exited
  receiver : state.workers .receiver = .exited
  closed : state.socketOpen = false

theorem Stopping.stopped_of_stopper (stopping : Stopping stack before) (here : before.stopper = .stopped) :
    Stopped before :=
  ⟨here, stopping.joined.exited (by rw [here]; rfl), stopping.ended here, stopping.closed (by rw [here]; rfl)⟩

theorem Stopping.stopped (stopping : Stopping stack before) (finished : before.left stack = 0)
    (going : before.terminated = false) : Stopped before := by
  apply stopping.stopped_of_stopper
  have called := stopping.called
  rw [Shutdown.left, going, if_neg Bool.false_ne_true] at finished
  cases here : before.stopper with
  | stopped => rfl
  | running | finishing => simp [here, Stopper.stops] at called
  | joinSubscriber | closePublisher | stopReceiver | joinReceiver => simp [here, Stopper.left] at finished

/-- A publication that is still made ends the process. -/
theorem Stopped.step (stopped : Stopped before)
    (stepped : Shutdown.step stack before label = some (after, events)) :
    before.terminated = false ∧ Stopped after ∧
      (events = [] ∨ ∃ msgs, events = [⟨.server, msgs, false⟩] ∧ after.terminated = true) := by
  obtain ⟨stopped, subscriber, receiver, closed⟩ := stopped
  have going : before.terminated = false := by
    by_contra ended
    simp [Shutdown.step, ended] at stepped
  have serverOnly (source : Source) (alive : before.workers source ≠ .exited) : source = .server := by
    cases source with
    | server => rfl
    | subscriber => exact absurd subscriber alive
    | receiver => exact absurd receiver alive
  have server (worker : Worker) : Stopped (before.setWorker .server worker) :=
    ⟨stopped, by rw [workers_setWorker, if_neg nofun, subscriber],
      by rw [workers_setWorker, if_neg nofun, receiver], closed⟩
  refine ⟨going, ?_⟩
  cases label with
  | finish | stop | stopper => simp [Shutdown.step, going, stopped, stopperStep] at stepped
  | worker source =>
      cases step_moved stepped with
      | goes other => simp at other
      | works alive =>
          obtain rfl := serverOnly source alive
          exact ⟨server _, .inl rfl⟩
      | sends _ opened => cases opened.symm.trans closed
      | @throws _ msgs due here =>
          obtain rfl := serverOnly source (by simp [here])
          rw [if_pos rfl]
          exact ⟨⟨stopped, subscriber, receiver, closed⟩, .inr ⟨msgs, rfl, rfl⟩⟩
  | polls source input =>
      cases step_moved stepped with
      | goes other => simp at other
      | polls here =>
          obtain rfl := serverOnly source (by simp [here])
          exact ⟨server _, .inl rfl⟩

variable {steps more : List (Taken Shutdown Label Sent)} {start middle final : Shutdown}

theorem Stopping.run_going (run : Run (Shutdown.step stack) start steps final) (stopping : Stopping stack start)
    (going : start.terminated = false) (own : ∀ taken ∈ steps, waited taken.before taken.label = true) :
    Stopping stack final ∧ final.terminated = false := by
  refine run.invariant (fun taken => waited taken.before taken.label = true)
    (fun state => Stopping stack state ∧ state.terminated = false) ⟨stopping, going⟩ ?_ own
  rintro before label after events ⟨stopping, -⟩ own stepped
  exact ⟨(stopping.step stepped).1, stopping.going own stepped⟩

theorem Stopped.run (stopped : Stopped start) (run : Run (Shutdown.step stack) start steps final) :
    Stopped final ∧
      (trace steps = [] ∨ ∃ msgs, trace steps = [⟨.server, msgs, false⟩] ∧ final.terminated = true) := by
  induction run with
  | nil => exact ⟨stopped, .inl rfl⟩
  | @snoc steps before after label events _ stepped ih =>
      obtain ⟨now, published⟩ := ih
      obtain ⟨going, still, publishes⟩ := now.step stepped
      refine ⟨still, ?_⟩
      rw [trace_append, trace_singleton]
      rcases published with none | ⟨_, _, ended⟩
      · rwa [none, List.nil_append]
      · cases going.symm.trans ended

theorem run_short (run : Run (step stack) (initial stack) steps final) : Joined final ∧ Short stack final := by
  apply run.always fun state => Joined state ∧ Short stack state
  · refine ⟨initial_joined stack, fun source => ?_⟩
    simp only [initial]
    split <;> exact Nat.zero_le _
  · rintro before label after events ⟨joined, short⟩ stepped
    exact ⟨joined.moved (step_moved stepped), short.moved (step_moved stepped)⟩

theorem stopping_of_stop (joined : Joined before) (short : Short stack before)
    (stepped : step stack before .stop = some (after, events)) : Stopping stack after := by
  have joined := joined.moved (step_moved stepped)
  simp only [Shutdown.step] at stepped
  split at stepped
  · cases stepped
  · split at stepped <;> cases stepped
    refine ⟨rfl, joined, fun source waits => ?_, nofun, nofun, short⟩
    cases waits
    exact Function.update_self Source.subscriber true before.flags

theorem run_stuck {source : Source} (stays : start.stuck returns source = true)
    (run : Run (blocking returns stack) start steps final) : final.stuck returns source = true :=
  run.always (fun state => state.stuck returns source = true) stays fun _ _ _ _ => stuck_step

theorem Stopped.not_stuck (stopped : Stopped before) {source : Source} (other : source ≠ .server) :
    before.stuck returns source = false := by
  have exited : before.workers source = .exited := by
    cases source with
    | server => exact absurd rfl other
    | subscriber => exact stopped.subscriber
    | receiver => exact stopped.receiver
  rw [stuck, exited]

theorem Stopping.run (stopping : Stopping stack start) (run : Run (Shutdown.step stack) start steps final) :
    Stopping stack final :=
  ((draining stack).count_le run (fun _ _ => trivial) stopping).1

/-- Whatever the threads of the stack do meanwhile, `Stop` takes and waits for a bounded number of steps. Those
that are left can be taken, unless the process has ended, as soon as the callbacks return that its two
threads are in; if one of these does not return, nor does `Stop`. Then both threads have ended and the
publisher's socket is closed. The next publication, which only a TCP server can still make, ends the process. -/
theorem stop_returns (returns : Source → Input → Bool)
    (run : Run (blocking returns stack) (initial stack) steps start)
    (called : step stack start .stop = some (middle, events))
    (further : Run (blocking returns stack) middle more final) :
    more.countP (fun taken => waited taken.before taken.label) ≤ middle.left stack ∧
      (final.terminated = false → Free returns final → ∃ rest last, Run (blocking returns stack) final rest last ∧
        (∀ taken ∈ rest, waited taken.before taken.label = true) ∧
        more.countP (fun taken => waited taken.before taken.label) + rest.length ≤ middle.left stack ∧
        last.terminated = false ∧ Stopped last ∧ ∀ later after, Run (step stack) last later after →
          trace later = [] ∨ ∃ msgs, trace later = [⟨.server, msgs, false⟩] ∧ after.terminated = true) ∧
      (¬ Free returns final → ∀ rest last, Run (blocking returns stack) final rest last → last.stopper ≠ .stopped) := by
  obtain ⟨joined, short⟩ := run_short (run_of_blocking run)
  have stopping := stopping_of_stop joined short called
  obtain ⟨now, bound⟩ := (draining stack).count_le (run_of_blocking further) (fun _ _ => trivial) stopping
  have spent : (draining stack).left final = final.left stack := rfl
  have given : (draining stack).left middle = middle.left stack := rfl
  refine ⟨Nat.le_of_add_right_le bound, fun going free => ?_, fun held rest last on reached => ?_⟩
  · obtain ⟨rest, last, back, own, ⟨holds, -⟩, finished, short⟩ :=
      (returning returns stack).exists_done ⟨now, free⟩ fun state holds unfinished => exists_step holds.2 unfinished
    have less : rest.length ≤ final.left stack := short
    have alive := (Stopping.run_going (run_of_blocking back) now going own).2
    have stopped := Stopping.stopped holds finished alive
    exact ⟨rest, last, back, own, by omega, alive, stopped, fun later after on => (stopped.run on).2⟩
  · simp only [Free, not_forall, Bool.not_eq_false] at held
    obtain ⟨source, other, stays⟩ := held
    have stopped := (Stopping.run now (run_of_blocking on)).stopped_of_stopper reached
    cases (run_stuck stays on).symm.trans (stopped.not_stuck other)

end Step

/-- The receiver has a message in hand when its stack is stopped, and still has when the publisher's
socket is closed. -/
theorem stop_returns_receiving : ∃ middle more final rest last,
    Run (blocking (fun _ _ => true) receiving) middle more final ∧
    Run (blocking (fun _ _ => true) receiving) final rest last ∧ final.socketOpen = false ∧
    final.workers .receiver = .publishing [.publication "topic1".toList "hello".toList] ∧
    more.countP (fun taken => waited taken.before taken.label) + rest.length ≤ middle.left receiving ∧
    last.workers .receiver = .exited := by
  have computed : (exec (blocking (fun _ _ => true) receiving) (initial receiving) [.worker .subscriber,
      .worker .receiver, .polls .receiver (some received)]).any (fun (_, start) =>
        (step receiving start .stop).any fun (middle, _) => (exec (blocking (fun _ _ => true) receiving) middle
          [.polls .subscriber none, .worker .receiver, .worker .subscriber, .stopper, .stopper]).any
            fun (_, final) => !final.socketOpen && (!final.terminated && decide (final.workers .receiver =
              .publishing [.publication "topic1".toList "hello".toList]))) = true := by
    decide +kernel
  obtain ⟨steps, start, run, computed⟩ := exists_run_of_exec computed
  obtain ⟨⟨middle, events⟩, called, computed⟩ := (Option.any_eq_true _ _).mp computed
  obtain ⟨more, final, further, checked⟩ := exists_run_of_exec computed
  simp only [Bool.and_eq_true, Bool.not_eq_true', decide_eq_true_eq] at checked
  obtain ⟨closed, going, held⟩ := checked
  have free : Free (fun _ _ => true) final := by
    intro source _
    rw [stuck]
    split <;> rfl
  obtain ⟨rest, last, back, -, bound, -, stopped, -⟩ := (stop_returns _ run called further).2.1 going free
  exact ⟨middle, more, final, rest, last, further, back, closed, held, bound, stopped.receiver⟩

end Shutdown

end ZmqPlayground
