import Mathlib.Data.Fintype.Basic
import ZmqPlayground.Delivery
import ZmqPlayground.Library.Runs

/-! `ZmqStack::Stop` among the threads that publish through the stack.

`Stop` joins the subscriber's thread, closes the publisher's socket and then joins the
receiver's thread. It does not know of the TCP server of a `NetStack`, which only the
destructor of that class finishes. The mutex of a `ConvStack` is left out: it delays a
delivery, and the orders it allows are among those of the steps below.
-/

set_option autoImplicit false

namespace ZmqPlayground

open Library Library.Runs

/-- The threads that can publish: of the subscriber, of the receiver and of the TCP server. -/
inductive Source where
  | subscriber
  | receiver
  | server
  deriving DecidableEq

instance : Fintype Source where
  elems := {.subscriber, .receiver, .server}
  complete source := by cases source <;> decide

/-- What a thread has received: a message, or the data of a TCP client. -/
inductive Input where
  | message (msgs : Message)
  | clientData (data : List Byte)
  deriving DecidableEq

/-- A stack with what decides on its publications. Only the first two have an endpoint to receive
on, and then a receiver. -/
inductive Stack where
  | zmqStack (receives : Bool)
  | convStack (stack : ConvStack) (receives : Bool)
  | netStack (pubTopics : List Str)

namespace Stack

def publishesMessage (stack : Stack) (channel : Channel) (msgs : Message) : List Message :=
  match stack with
  | .convStack stack _ => match (deliver .convStack channel).eval msgs.frames with
      | some (some (.converts topic msg)) => (stack.convert topic msg).2
      | _ => []
  -- The other two log the message, or broadcast it to the clients.
  | .zmqStack _ | .netStack _ => []

def publishes (stack : Stack) : Source → Input → List Message
  | .subscriber, .message msgs => stack.publishesMessage .subscriber msgs
  | .receiver, .message msgs => stack.publishesMessage .receiver msgs
  | .server, .clientData data => match stack with
      | .netStack pubTopics => NetStack.onReceiveClientData pubTopics data
      | .zmqStack _ | .convStack _ _ => []
  | _, _ => []

def runs (stack : Stack) : Source → Bool
  | .subscriber => true
  | .receiver => match stack with
      | .zmqStack receives | .convStack _ receives => receives
      | .netStack _ => false
  | .server => match stack with
      | .netStack _ => true
      | .zmqStack _ | .convStack _ _ => false

end Stack

/-- A thread in its `while` loop: at its head, waiting for input, or in a callback, whose
publications are still to be made. -/
inductive Worker where
  | looping
  | polling
  | entering (input : Input)
  | publishing (due : List Message)
  | exited
  deriving DecidableEq

/-- The thread that stops the stack. `finishing` is the destructor of a `NetStack`, which joins the
server's thread before that of the base class calls `Stop`. -/
inductive Stopper where
  | running
  | finishing
  | joinSubscriber
  | closePublisher
  | stopReceiver
  | joinReceiver
  | stopped
  deriving DecidableEq

def Stopper.joined : Stopper → Bool
  | .closePublisher | .stopReceiver | .joinReceiver | .stopped => true
  | .running | .finishing | .joinSubscriber => false

/-- What a thread is still to publish before it waits for input again. -/
def Worker.due (stack : Stack) (source : Source) : Worker → List Message
  | .entering input => stack.publishes source input
  | .publishing due => due
  | .looping | .polling | .exited => []

structure Shutdown where
  workers : Source → Worker
  flags : Source → Bool
  stopper : Stopper
  socketOpen : Bool
  terminated : Bool

namespace Shutdown

def initial (stack : Stack) : Shutdown where
  workers source := if stack.runs source then .looping else .exited
  flags _ := false
  stopper := .running
  socketOpen := true
  terminated := false

inductive Label where
  | finish
  | stop
  /-- The stopping thread goes on, if it need not wait. -/
  | stopper
  /-- A thread that publishes goes on, with nothing to choose. -/
  | worker (source : Source)
  | polls (source : Source) (input : Option Input)
  deriving DecidableEq

structure Sent where
  source : Source
  msgs : Message
  socketOpen : Bool
  deriving DecidableEq

def setWorker (state : Shutdown) (source : Source) (worker : Worker) : Shutdown :=
  { state with workers := Function.update state.workers source worker }

def setFlag (state : Shutdown) (source : Source) : Shutdown :=
  { state with flags := Function.update state.flags source true }

def stopperStep (state : Shutdown) : Option Shutdown :=
  match state.stopper with
  | .finishing =>
      if state.workers .server = .exited then some { state with stopper := .running } else none
  | .joinSubscriber =>
      if state.workers .subscriber = .exited then some { state with stopper := .closePublisher }
      else none
  | .closePublisher => some { state with socketOpen := false, stopper := .stopReceiver }
  | .stopReceiver => some { state.setFlag .receiver with stopper := .joinReceiver }
  | .joinReceiver =>
      if state.workers .receiver = .exited then some { state with stopper := .stopped } else none
  | .running | .stopped => none

def workerStep (stack : Stack) (state : Shutdown) (source : Source) : Option (Shutdown × List Sent) :=
  match state.workers source with
  | .looping =>
      some (state.setWorker source (if state.flags source then .exited else .polling), [])
  | .entering input =>
      some (state.setWorker source (.publishing (stack.publishes source input)), [])
  | .publishing (msgs :: due) =>
      let sent := ⟨source, msgs, state.socketOpen⟩
      if state.socketOpen then some (state.setWorker source (.publishing due), [sent])
      -- The loops of the subscriber and the receiver catch the exception and end.
      else if source = .server then some ({ state with terminated := true }, [sent])
      else some (state.setWorker source .exited, [sent])
  | .publishing [] => some (state.setWorker source .looping, [])
  | .polling | .exited => none

def step (stack : Stack) : Step Shutdown Label Sent := fun state label =>
  if state.terminated then none else
  match label with
  | .finish =>
      if state.stopper = .running then some ({ state.setFlag .server with stopper := .finishing }, [])
      else none
  | .stop =>
      if state.stopper = .running then
        some ({ state.setFlag .subscriber with stopper := .joinSubscriber }, [])
      else none
  | .stopper => state.stopperStep.map fun after => (after, [])
  | .worker source => state.workerStep stack source
  | .polls source input =>
      if state.workers source = .polling then
        some (state.setWorker source ((input.map .entering).getD .looping), [])
      else none

inductive Moved (stack : Stack) (before : Shutdown) : Label → Shutdown → List Sent → Prop where
  | goes {label : Label} {after : Shutdown}
      (other : label = .finish ∨ label = .stop ∨
        label = .stopper ∧ before.stopper ≠ .closePublisher)
      (workers : after.workers = before.workers) (socket : after.socketOpen = before.socketOpen)
      (order : after.stopper.joined = before.stopper.joined ∨
        before.stopper = .joinSubscriber ∧ before.workers .subscriber = .exited) :
      Moved stack before label after []
  | closes (here : before.stopper = .closePublisher) :
      Moved stack before .stopper { before with socketOpen := false, stopper := .stopReceiver } []
  | works {source : Source} {worker : Worker} (alive : before.workers source ≠ .exited)
      (same : worker.due stack source = (before.workers source).due stack source) :
      Moved stack before (.worker source) (before.setWorker source worker) []
  | sends {source : Source} {msgs : Message} {due : List Message}
      (here : before.workers source = .publishing (msgs :: due)) (opened : before.socketOpen = true) :
      Moved stack before (.worker source) (before.setWorker source (.publishing due))
        [⟨source, msgs, true⟩]
  | throws {source : Source} {msgs : Message} {due : List Message}
      (here : before.workers source = .publishing (msgs :: due)) (closed : before.socketOpen = false) :
      Moved stack before (.worker source)
        (if source = .server then { before with terminated := true }
          else before.setWorker source .exited) [⟨source, msgs, false⟩]
  | polls {source : Source} {input : Option Input} (here : before.workers source = .polling) :
      Moved stack before (.polls source input)
        (before.setWorker source ((input.map .entering).getD .looping)) []

section Step
variable {stack : Stack} {before after : Shutdown} {label : Label} {events : List Sent}

theorem stopperStep_moved (stepped : before.stopperStep = some after) :
    Moved stack before .stopper after [] := by
  unfold stopperStep at stepped
  split at stepped
  · rename_i here
    split at stepped <;> cases stepped
    exact .goes (.inr (.inr ⟨rfl, by simp [here]⟩)) rfl rfl (.inl (by rw [here]; rfl))
  · rename_i here
    split at stepped <;> cases stepped
    rename_i exited
    exact .goes (.inr (.inr ⟨rfl, by simp [here]⟩)) rfl rfl (.inr ⟨here, exited⟩)
  · rename_i here
    cases stepped
    exact .closes here
  · rename_i here
    cases stepped
    exact .goes (.inr (.inr ⟨rfl, by simp [here]⟩)) rfl rfl (.inl (by rw [here]; rfl))
  · rename_i here
    split at stepped <;> cases stepped
    exact .goes (.inr (.inr ⟨rfl, by simp [here]⟩)) rfl rfl (.inl (by rw [here]; rfl))
  · cases stepped
  · cases stepped

theorem workerStep_moved {source : Source}
    (stepped : before.workerStep stack source = some (after, events)) :
    Moved stack before (.worker source) after events := by
  unfold workerStep at stepped
  split at stepped
  · rename_i here
    cases stepped
    refine .works (by simp [here]) ?_
    rw [here]
    split <;> rfl
  · rename_i here
    cases stepped
    exact .works (by simp [here]) (by rw [here]; rfl)
  · rename_i here
    split at stepped
    · rename_i opened
      cases stepped
      rw [opened]
      exact .sends here opened
    · rename_i closed
      rw [Bool.not_eq_true] at closed
      have thrown : Moved stack before (.worker source) _ _ := .throws here closed
      split at stepped <;> cases stepped
      · rename_i isServer
        rwa [if_pos isServer, ← closed] at thrown
      · rename_i other
        rwa [if_neg other, ← closed] at thrown
  · rename_i here
    cases stepped
    exact .works (by simp [here]) (by rw [here]; rfl)
  · cases stepped
  · cases stepped

theorem step_moved (stepped : step stack before label = some (after, events)) :
    Moved stack before label after events := by
  unfold step at stepped
  split at stepped
  · cases stepped
  · cases label with
    | finish =>
        simp only at stepped
        split at stepped <;> cases stepped
        rename_i here
        exact .goes (.inl rfl) rfl rfl (.inl (by rw [here]; rfl))
    | stop =>
        simp only at stepped
        split at stepped <;> cases stepped
        rename_i here
        exact .goes (.inr (.inl rfl)) rfl rfl (.inl (by rw [here]; rfl))
    | stopper =>
        obtain ⟨next, goes, same⟩ := Option.map_eq_some_iff.mp stepped
        cases same
        exact stopperStep_moved goes
    | worker source => exact workerStep_moved stepped
    | polls source input =>
        simp only at stepped
        split at stepped <;> cases stepped
        rename_i here
        exact .polls here

/-- The subscriber's thread has been joined before the socket is closed. -/
structure Joined (state : Shutdown) : Prop where
  exited : state.stopper.joined = true → state.workers .subscriber = .exited
  ordered : state.socketOpen = false → state.stopper.joined = true

theorem Joined.moved (joined : Joined before) (moved : Moved stack before label after events) :
    Joined after := by
  obtain ⟨exited, ordered⟩ := joined
  have elsewhere : ∀ source worker, before.workers source ≠ .exited →
      Joined (before.setWorker source worker) := by
    refine fun source worker alive => ⟨fun passed => ?_, ordered⟩
    have gone := exited passed
    refine (Function.update_of_ne ?_ _ _).trans gone
    rintro rfl
    exact alive gone
  cases moved with
  | goes _ workers socket order =>
      rcases order with same | ⟨here, gone⟩
      · exact ⟨by rwa [same, workers], by rwa [same, socket]⟩
      · refine ⟨fun _ => workers ▸ gone, fun closed => ?_⟩
        have passed := ordered (socket ▸ closed)
        rw [here] at passed
        cases passed
  | closes here => exact ⟨fun _ => exited (by rw [here]; rfl), fun _ => rfl⟩
  | works alive => exact elsewhere _ _ alive
  | sends here => exact elsewhere _ _ (by simp [here])
  | throws here =>
      split
      · exact ⟨exited, ordered⟩
      · exact elsewhere _ _ (by simp [here])
  | polls here => exact elsewhere _ _ (by simp [here])

/-- A delivery that publishes something is under way on another thread than the subscriber's when
the socket is closed, or is taken up by one later. -/
def Late (stack : Stack) (taken : Taken Shutdown Label Sent) : Prop :=
  match taken.label with
  | .stopper => taken.before.stopper = .closePublisher ∧
      ∃ source ≠ .subscriber, (taken.before.workers source).due stack source ≠ []
  | .polls source (some input) => taken.before.socketOpen = false ∧ source ≠ .subscriber ∧
      stack.publishes source input ≠ []
  | _ => False

instance (stack : Stack) (taken : Taken Shutdown Label Sent) : Decidable (Late stack taken) :=
  match taken with
  | ⟨before, .stopper, _⟩ => inferInstanceAs (Decidable (before.stopper = .closePublisher ∧
      ∃ source ≠ .subscriber, (before.workers source).due stack source ≠ []))
  | ⟨before, .polls source (some input), _⟩ => inferInstanceAs (Decidable
      (before.socketOpen = false ∧ source ≠ .subscriber ∧ stack.publishes source input ≠ []))
  | ⟨_, .polls _ none, _⟩ | ⟨_, .finish, _⟩ | ⟨_, .stop, _⟩ | ⟨_, .worker _, _⟩ => isFalse id

/-- Nothing is left to publish once the socket is closed. -/
def Quiet (stack : Stack) (state : Shutdown) : Prop :=
  state.socketOpen = false → ∀ source, (state.workers source).due stack source = []

theorem due_setWorker {source : Source} {worker : Worker} (state : Shutdown) (other : Source) :
    ((state.setWorker source worker).workers other).due stack other =
      if other = source then worker.due stack source else (state.workers other).due stack other := by
  by_cases own : other = source
  · rw [if_pos own, own, setWorker]
    exact congrArg (Worker.due stack source) (Function.update_self _ _ _)
  · rw [if_neg own, setWorker]
    exact congrArg (Worker.due stack other) (Function.update_of_ne own _ _)

theorem Quiet.moved (quiet : Quiet stack before) (joined : Joined before)
    (moved : Moved stack before label after events) (early : ¬ Late stack ⟨before, label, events⟩) :
    Quiet stack after ∧ ∀ sent ∈ events, sent.socketOpen = true := by
  cases moved with
  | goes _ workers socket =>
      exact ⟨fun closed => by rw [workers]; exact quiet (socket ▸ closed), by simp⟩
  | closes here =>
      refine ⟨fun _ source => ?_, by simp⟩
      by_cases own : source = .subscriber
      · rw [own, joined.exited (by rw [here]; rfl)]
        rfl
      · by_contra unsent
        exact early ⟨here, source, own, unsent⟩
  | @works source worker alive same =>
      refine ⟨fun closed other => ?_, by simp⟩
      rw [due_setWorker]
      split
      · exact same.trans (quiet closed source)
      · exact quiet closed other
  | @sends source msgs due here opened =>
      exact ⟨fun closed => absurd (opened.symm.trans closed) Bool.noConfusion, by simp⟩
  | @throws source msgs due here closed =>
      have none := quiet closed source
      rw [here] at none
      cases none
  | @polls source input here =>
      refine ⟨fun closed other => ?_, by simp⟩
      rw [due_setWorker]
      split
      · have own : source ≠ .subscriber := by
          rintro rfl
          rw [joined.exited (joined.ordered closed)] at here
          cases here
        cases input with
        | none => rfl
        | some input =>
            by_contra unsent
            exact early ⟨closed, own, unsent⟩
      · exact quiet closed other

theorem due_moved (closed : before.socketOpen = false) {source : Source}
    (unsent : (before.workers source).due stack source ≠ [])
    (moved : Moved stack before label after events)
    (opened : ∀ sent ∈ events, sent.socketOpen = true) :
    after.socketOpen = false ∧ (after.workers source).due stack source ≠ [] := by
  cases moved with
  | goes _ workers socket => exact ⟨socket.trans closed, by rwa [workers]⟩
  | closes => exact ⟨rfl, unsent⟩
  | @works other worker alive same =>
      refine ⟨closed, ?_⟩
      rw [due_setWorker]
      split
      · rename_i own
        rwa [same, ← own]
      · exact unsent
  | sends here isOpen => exact absurd (isOpen.symm.trans closed) Bool.noConfusion
  | throws => simp at opened
  | @polls other input here =>
      refine ⟨closed, ?_⟩
      rw [due_setWorker]
      split
      · rename_i own
        rw [own, here] at unsent
        exact absurd rfl unsent
      · exact unsent

theorem Late.due (late : Late stack ⟨before, label, events⟩)
    (moved : Moved stack before label after events) :
    after.socketOpen = false ∧ ∃ source, (after.workers source).due stack source ≠ [] := by
  cases moved with
  | goes other =>
      rcases other with rfl | rfl | ⟨rfl, elsewhere⟩
      · exact late.elim
      · exact late.elim
      · exact absurd late.1 elsewhere
  | closes =>
      obtain ⟨-, source, -, unsent⟩ := late
      exact ⟨rfl, source, unsent⟩
  | works | sends | throws => exact late.elim
  | @polls source input here =>
      cases input with
      | none => exact late.elim
      | some input =>
          obtain ⟨closed, -, unsent⟩ := late
          refine ⟨closed, source, ?_⟩
          rw [due_setWorker, if_pos rfl]
          exact unsent

end Step

section Run
variable {stack : Stack} {steps : List (Taken Shutdown Label Sent)} {final : Shutdown}

theorem initial_joined (stack : Stack) : Joined (initial stack) :=
  ⟨nofun, nofun⟩

theorem sends_open (run : Run (step stack) (initial stack) steps final)
    (early : ∀ taken ∈ steps, ¬ Late stack taken) : ∀ sent ∈ trace steps, sent.socketOpen = true := by
  have kept := run.history (fun taken => ¬ Late stack taken)
    (fun past state => Joined state ∧ Quiet stack state ∧ ∀ sent ∈ past, sent.socketOpen = true)
    ⟨initial_joined stack, nofun, by simp⟩ ?_ early
  · exact kept.2.2
  · rintro past before label after events ⟨joined, quiet, opened⟩ permitted stepped
    have moved := step_moved stepped
    obtain ⟨quietly, sends⟩ := quiet.moved joined moved permitted
    refine ⟨joined.moved moved, quietly, fun sent member => ?_⟩
    exact (List.mem_append.mp member).elim (opened sent) (sends sent)

/-- No thread is left in a callback that has something to publish. -/
def Settled (stack : Stack) (state : Shutdown) : Prop :=
  ∀ source, (state.workers source).due stack source = []

theorem early_of_sends_open (run : Run (step stack) (initial stack) steps final)
    (settled : Settled stack final) (opened : ∀ sent ∈ trace steps, sent.socketOpen = true) :
    ∀ taken ∈ steps, ¬ Late stack taken := by
  intro taken member late
  obtain ⟨first, rest, after, rfl, -, stepped, later⟩ := run.reached member
  obtain ⟨closed, source, unsent⟩ := late.due (step_moved stepped)
  -- What is due then can only go by being sent on the closed socket.
  have stays := later.invariant (fun taken => ∀ sent ∈ taken.events, sent.socketOpen = true)
    (fun state => state.socketOpen = false ∧ (state.workers source).due stack source ≠ [])
    ⟨closed, unsent⟩
    (fun before label after events holds allowed stepped =>
      due_moved holds.1 holds.2 (step_moved stepped) allowed)
    fun taken member sent emitted =>
      opened sent (List.mem_flatMap.mpr ⟨taken, by simp [member], emitted⟩)
  exact stays.2 (settled source)

/-- Nothing is published on the closed socket if no delivery is late; and in a run that leaves none
unfinished, only then. -/
theorem sends_open_iff (run : Run (step stack) (initial stack) steps final) :
    ((∀ taken ∈ steps, ¬ Late stack taken) → ∀ sent ∈ trace steps, sent.socketOpen = true) ∧
      (Settled stack final → ((∀ sent ∈ trace steps, sent.socketOpen = true) ↔
        ∀ taken ∈ steps, ¬ Late stack taken)) :=
  ⟨sends_open run, fun settled => ⟨early_of_sends_open run settled, sends_open run⟩⟩

def receiving : Stack :=
  .convStack (.create (fun _ => true) [] [] (AList.singleton ConvStack.receiverTopic ["topic1".toList]))
    true

def received : Input := .message ⟨["hello".toList], List.cons_ne_nil _ _⟩

/-- The message is delivered before the subscriber is stopped. -/
theorem sends_open_iff_delivered : ∃ steps final, Run (step receiving) (initial receiving) steps final ∧
    final.stopper = .stopped ∧ (trace steps).length = 1 ∧
      ∀ sent ∈ trace steps, sent.socketOpen = true := by
  have computed : (exec (step receiving) (initial receiving) [.worker .receiver,
      .polls .receiver (some received), .worker .receiver, .worker .receiver, .worker .receiver, .stop,
      .worker .subscriber, .stopper, .stopper, .stopper, .worker .receiver, .stopper]).any
      (fun (steps, final) => final.stopper == .stopped &&
        ((trace steps).length == 1 && steps.all fun taken => !decide (Late receiving taken))) = true := by
    decide +kernel
  obtain ⟨steps, final, run, computed⟩ := exists_run_of_exec computed
  simp only [Bool.and_eq_true, beq_iff_eq, List.all_eq_true, Bool.not_eq_true',
    decide_eq_false_iff_not] at computed
  obtain ⟨stopped, one, early⟩ := computed
  exact ⟨steps, final, run, stopped, one, (sends_open_iff run).1 early⟩

/-- The receiver is handed a message just before its stack is stopped. -/
theorem receiver_sends_on_closed :
    ∃ steps final, Run (step receiving) (initial receiving) steps final ∧
      ∃ sent ∈ trace steps, sent.source = .receiver ∧ sent.socketOpen = false := by
  have computed : (exec (step receiving) (initial receiving) [.worker .receiver,
      .polls .receiver (some received), .stop, .worker .subscriber, .stopper, .stopper,
      .worker .receiver, .worker .receiver]).any (fun (steps, _) => (trace steps).any fun sent =>
        sent.source == .receiver && sent.socketOpen == false) = true := by
    decide +kernel
  obtain ⟨steps, final, run, computed⟩ := exists_run_of_exec computed
  simp only [List.any_eq_true, Bool.and_eq_true, beq_iff_eq] at computed
  exact ⟨steps, final, run, computed⟩

end Run

end Shutdown

end ZmqPlayground
