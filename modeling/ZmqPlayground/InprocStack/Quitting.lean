import Mathlib.Algebra.GroupWithZero.Nat
import ZmqPlayground.InprocStack.InprocStack
import ZmqPlayground.Prompts
import ZmqPlayground.Stopping
import ZmqPlayground.ZmqProxy.Steering

/-! The in-process program from the line `quit` to the end of `main`.

`main` stops the stacks one after the other, then the destructors stop the proxy and wait
until the context has no open socket. All other threads go on meanwhile, those of the TCP
servers also after their stacks have been stopped. What `main` publishes at the prompt is
left out, and what is still queued in a closed socket is taken to be dropped.
-/

set_option autoImplicit false

namespace ZmqPlayground

open Library Library.Runs

namespace Shutdown

structure Fresh (stack : Stack) (state : Shutdown) : Prop where
  running : state.stopper = .running
  joined : Joined state
  short : Short stack state

section Step
variable {stack : Stack} {before after : Shutdown} {label : Label} {events : List Sent}

/-- The process ends where the thread of a server publishes on the closed socket. -/
theorem step_terminated_iff (stepped : step stack before label = some (after, events)) :
    after.terminated = true ↔ ∃ msgs, ⟨.server, msgs, false⟩ ∈ events := by
  simp only [step] at stepped
  split at stepped
  · cases stepped
  rename_i going
  cases label with
  | finish | stop =>
      simp only at stepped
      split at stepped <;> cases stepped
      simpa [setFlag] using going
  | stopper =>
      obtain ⟨next, goes, same⟩ := Option.map_eq_some_iff.mp stepped
      cases same
      have same : after.terminated = before.terminated := by
        simp only [stopperStep] at goes
        repeat' split at goes
        all_goals cases goes
        all_goals rfl
      simpa [same] using going
  | worker source =>
      simp only [workerStep] at stepped
      split at stepped
      · cases stepped
        simpa [setWorker] using going
      · cases stepped
        simpa [setWorker] using going
      · split at stepped
        · rename_i opened
          cases stepped
          simpa [setWorker, opened] using going
        · rename_i closed
          split at stepped <;> cases stepped
          · rename_i server
            simp [server, closed]
          · rename_i other
            simpa [setWorker, Ne.symm other] using going
      · cases stepped
        simpa [setWorker] using going
      · cases stepped
      · cases stepped
  | polls source input =>
      simp only at stepped
      split at stepped <;> cases stepped
      simpa [setWorker] using going

theorem stopper_step (own : label ≠ .finish ∧ label ≠ .stop ∧ label ≠ .stopper)
    (stepped : step stack before label = some (after, events)) : after.stopper = before.stopper := by
  obtain ⟨notFinish, notStop, notStopper⟩ := own
  simp only [step] at stepped
  split at stepped
  · cases stepped
  cases label with
  | finish => exact absurd rfl notFinish
  | stop => exact absurd rfl notStop
  | stopper => exact absurd rfl notStopper
  | worker source =>
      simp only [workerStep] at stepped
      repeat' split at stepped
      all_goals cases stepped
      all_goals rfl
  | polls source input =>
      simp only at stepped
      split at stepped <;> cases stepped
      rfl

theorem Fresh.initial (stack : Stack) : Fresh stack (Shutdown.initial stack) := by
  have run : Run (Shutdown.step stack) (Shutdown.initial stack) [] (Shutdown.initial stack) := .nil
  obtain ⟨joined, short⟩ := run_short run
  exact ⟨rfl, joined, short⟩

theorem Fresh.step (fresh : Fresh stack before) (own : label ≠ .finish ∧ label ≠ .stop ∧ label ≠ .stopper)
    (stepped : Shutdown.step stack before label = some (after, events)) : Fresh stack after :=
  ⟨(stopper_step own stepped).trans fresh.running, fresh.joined.moved (step_moved stepped),
    fresh.short.moved (step_moved stepped)⟩

theorem Fresh.stop (fresh : Fresh stack before) (stepped : Shutdown.step stack before .stop = some (after, events)) :
    Stopping stack after ∧ after.left stack ≤ 2 * stack.most + 12 := by
  have stopping := stopping_of_stop fresh.joined fresh.short stepped
  have bounded := stopping.left_le .subscriber
  have called : after.stopper = .joinSubscriber := by
    simp only [Shutdown.step] at stepped
    repeat' split at stepped
    all_goals cases stepped
    rfl
  refine ⟨stopping, ?_⟩
  rw [Shutdown.left, called, Stopper.left]
  split <;> omega

end Step

end Shutdown

namespace InprocStackMain

inductive Place where
  | prompt
  /-- In the loop over the stacks, with these before it. -/
  | loop (rest : List Node)
  /-- In `Stop` of a stack. -/
  | stopping (node : Node) (rest : List Node)
  /-- Before the destructor of the proxy. -/
  | destroying
  | joining
  /-- In the destructor of the context. -/
  | terminating
  | returned
  deriving DecidableEq

/-- What decides on the publications of a stack. None of them has a receiver. -/
def stackOf : Node → Stack
  | .stack _ => .zmqStack false
  | .net side => .netStack (InprocStack.pubTopics side)
  | .conv => .convStack (.create (fun _ => true) [] (InprocStack.subTopics .conv) InprocStack.conversions) false

structure Quitting where
  place : Place
  shutdowns : Node → Shutdown
  proxy : Proxy.Steered Unit

/-- `main` goes on, a thread of a stack does, or the thread of the proxy. -/
inductive Label where
  | main
  | thread (node : Node) (label : Shutdown.Label)
  | proxy (act : Proxy.Act Unit)
  deriving DecidableEq

namespace Quitting

def initial : Quitting where
  place := .prompt
  shutdowns node := Shutdown.initial (stackOf node)
  proxy := .initial

/-- An exception has left a thread. -/
def terminated (state : Quitting) : Bool := nodes.any fun node => (state.shutdowns node).terminated

def onStack (state : Quitting) (node : Node) (label : Shutdown.Label) (place : Place) :
    Option (Quitting × List (Node × Shutdown.Sent)) :=
  (Shutdown.step (stackOf node) (state.shutdowns node) label).map fun (after, events) =>
    ({ state with place := place, shutdowns := Function.update state.shutdowns node after }, events.map (node, ·))

/-- The sockets of a stack are closed: its publisher's, and its subscriber's by the thread that ends. -/
def Shut (state : Shutdown) : Prop := state.socketOpen = false ∧ state.workers .subscriber = .exited

instance (state : Shutdown) : Decidable (Shut state) := inferInstanceAs (Decidable (_ ∧ _))

def mainStep (state : Quitting) : Option (Quitting × List (Node × Shutdown.Sent)) :=
  match state.place with
  | .prompt => some ({ state with place := .loop nodes }, [])
  | .loop (node :: rest) => state.onStack node .stop (.stopping node rest)
  | .loop [] => some ({ state with place := .destroying }, [])
  | .stopping node rest =>
      if (state.shutdowns node).stopper = .stopped then some ({ state with place := .loop rest }, [])
      else state.onStack node .stopper (.stopping node rest)
  | .destroying =>
      (state.proxy.step (.operation .destroy)).map fun (proxy, _) =>
        ({ state with proxy := proxy, place := .joining }, [])
  | .joining => if state.proxy.running then none else some ({ state with place := .terminating }, [])
  -- The sockets of the proxy have been closed by its thread.
  | .terminating =>
      if ∀ node ∈ nodes, Shut (state.shutdowns node) then some ({ state with place := .returned }, []) else none
  | .returned => none

def step : Step Quitting Label (Node × Shutdown.Sent) := fun state label =>
  if state.terminated then none else
  match label with
  | .main => state.mainStep
  | .thread node label => match label with
      | .worker _ | .polls _ _ => state.onStack node label state.place
      | .finish | .stop | .stopper => none
  | .proxy act => match act with
      | .count _ | .answer _ => (state.proxy.step act).map fun (proxy, _) => ({ state with proxy := proxy }, [])
      | .operation _ => none

/-- The steps, where some callbacks do not return. -/
def blocking (returns : Node → Source → Input → Bool) : Step Quitting Label (Node × Shutdown.Sent) :=
  fun state label => match label with
  | .thread node (.worker source) =>
      if (state.shutdowns node).stuck (returns node) source then none else step state label
  | .main | .proxy _ | .thread _ .finish | .thread _ .stop | .thread _ .stopper | .thread _ (.polls _ _) =>
      step state label

/-- No thread that `main` joins is stuck. -/
def Free (returns : Node → Source → Input → Bool) (state : Quitting) : Prop :=
  ∀ node, (state.shutdowns node).Free (returns node)

def takesUp : Label → Bool
  | .thread _ label => label.takesUp
  | .main | .proxy _ => false

/-- A step that `main` takes, or that it waits for. -/
def waited (state : Quitting) : Label → Bool
  | .main => true
  | .thread node label => match state.place with
      | .stopping current _ => decide (node = current) && (state.shutdowns node).waited label
      | _ => false
  | .proxy act => decide (state.place = .joining) && match act with
      | .answer _ => true
      | .count _ | .operation _ => false

/-- The most that is left of `Stop` when it is called, with the call and the way to the next one. -/
def toll (node : Node) : ℕ := 2 * (stackOf node).most + 14

/-- A bound on the steps that `main` still takes or waits for after the loop over the stacks. -/
def past (state : Quitting) : Place → ℕ
  | .loop rest => (rest.map toll).sum + 5
  | .stopping node rest => (state.shutdowns node).left (stackOf node) + 1 + ((rest.map toll).sum + 5)
  | .destroying => 4
  | .joining => 2 + state.proxy.running.toNat
  | .terminating => 1
  | .prompt | .returned => 0

def left (state : Quitting) : ℕ := if state.terminated then 0 else state.past state.place

structure Unasked (proxy : Proxy.Steered Unit) : Prop where
  idle : proxy.control.calls.keys = []
  alive : proxy.control.destroyed = false
  accepting : proxy.control.outstanding = false
  quiet : proxy.link = .quiet
  running : proxy.running = true

/-- How far `main` has got, and what it leaves behind. -/
inductive Phase (state : Quitting) : Prop where
  | prompt (here : state.place = .prompt) (fresh : ∀ node, (state.shutdowns node).Fresh (stackOf node))
      (unasked : Unasked state.proxy)
  | loop {front rest : List Node} (here : state.place = .loop rest) (split : front ++ rest = nodes)
      (stopped : ∀ node ∈ front, (state.shutdowns node).Stopped)
      (fresh : ∀ node ∈ rest, (state.shutdowns node).Fresh (stackOf node)) (unasked : Unasked state.proxy)
  | stopping {front rest : List Node} {node : Node} (here : state.place = .stopping node rest)
      (split : front ++ node :: rest = nodes) (stopped : ∀ node ∈ front, (state.shutdowns node).Stopped)
      (stopping : (state.shutdowns node).Stopping (stackOf node))
      (fresh : ∀ node ∈ rest, (state.shutdowns node).Fresh (stackOf node)) (unasked : Unasked state.proxy)
  | destroying (here : state.place = .destroying) (stopped : ∀ node ∈ nodes, (state.shutdowns node).Stopped)
      (unasked : Unasked state.proxy)
  | joining (here : state.place = .joining) (stopped : ∀ node ∈ nodes, (state.shutdowns node).Stopped)
      (asked : state.proxy.running = true → state.proxy.link = .command .terminate)
  | ended (here : state.place = .terminating ∨ state.place = .returned)
      (stopped : ∀ node ∈ nodes, (state.shutdowns node).Stopped) (ended : state.proxy.running = false)

theorem mem_nodes (node : Node) : node ∈ nodes := by
  cases node with
  | stack index => simp [nodes]
  | net side => cases side <;> simp [nodes]
  | conv => simp [nodes]

theorem nodes_nodup : nodes.Nodup := by decide

theorem Phase.initial : Phase .initial :=
  .prompt rfl (fun node => Shutdown.Fresh.initial (stackOf node)) ⟨rfl, rfl, rfl, rfl, rfl⟩

section Step
variable {before after : Quitting} {label : Label} {events : List (Node × Shutdown.Sent)}

theorem of_onStack {node : Node} {label : Shutdown.Label} {place : Place}
    (stepped : before.onStack node label place = some (after, events)) :
    ∃ next sent, Shutdown.step (stackOf node) (before.shutdowns node) label = some (next, sent) ∧
      after = { before with place := place, shutdowns := Function.update before.shutdowns node next } ∧
      events = sent.map (node, ·) := by
  obtain ⟨⟨next, sent⟩, moved, same⟩ := Option.map_eq_some_iff.mp stepped
  cases same
  exact ⟨next, sent, moved, rfl, rfl⟩

section Blocking
variable {returns : Node → Source → Input → Bool}

theorem step_of_blocking (blocked : blocking returns before label = some (after, events)) :
    step before label = some (after, events) ∧
      ∀ node source, label = .thread node (.worker source) →
        (before.shutdowns node).stuck (returns node) source = false := by
  cases label with
  | main | proxy => exact ⟨blocked, nofun⟩
  | thread node label =>
      cases label with
      | finish | stop | stopper | polls => exact ⟨blocked, nofun⟩
      | worker source =>
          simp only [blocking] at blocked
          split at blocked
          · cases blocked
          · rename_i free
            refine ⟨blocked, ?_⟩
            rintro _ _ ⟨⟩
            simpa using free

theorem run_of_blocking {steps : List (Taken Quitting Label (Node × Shutdown.Sent))} {start final : Quitting}
    (run : Run (blocking returns) start steps final) : Run step start steps final :=
  run.mono fun _ _ _ blocked => (step_of_blocking blocked).1

/-- A step moves one of the stacks at most, and what its threads do is a step of theirs. -/
theorem shutdowns_of_step (stepped : step before label = some (after, events)) (node : Node) :
    after.shutdowns node = before.shutdowns node ∨ ∃ own sent,
      Shutdown.step (stackOf node) (before.shutdowns node) own = some (after.shutdowns node, sent) ∧
        (takesUp label = false → own.takesUp = false) ∧
        ∀ source, own = .worker source → label = .thread node (.worker source) := by
  have onStack {other : Node} {own : Shutdown.Label} {place : Place}
      (stepped : before.onStack other own place = some (after, events))
      (quiet : takesUp label = false → own.takesUp = false)
      (mine : ∀ source, own = .worker source → label = .thread other (.worker source)) :
      after.shutdowns node = before.shutdowns node ∨ ∃ own sent,
        Shutdown.step (stackOf node) (before.shutdowns node) own = some (after.shutdowns node, sent) ∧
          (takesUp label = false → own.takesUp = false) ∧
          ∀ source, own = .worker source → label = .thread node (.worker source) := by
    obtain ⟨next, sent, moved, rfl, rfl⟩ := of_onStack stepped
    by_cases same : node = other
    · subst same
      exact .inr ⟨own, sent, by simpa using moved, quiet, mine⟩
    · exact .inl (Function.update_of_ne same _ _)
  simp only [step] at stepped
  split at stepped
  · cases stepped
  cases label with
  | main =>
      simp only [mainStep] at stepped
      split at stepped
      · cases stepped
        exact .inl rfl
      · exact onStack stepped (fun _ => rfl) nofun
      · cases stepped
        exact .inl rfl
      · split at stepped
        · cases stepped
          exact .inl rfl
        · exact onStack stepped (fun _ => rfl) nofun
      · obtain ⟨_, _, same⟩ := Option.map_eq_some_iff.mp stepped
        cases same
        exact .inl rfl
      · split at stepped <;> cases stepped
        exact .inl rfl
      · split at stepped <;> cases stepped
        exact .inl rfl
      · cases stepped
  | thread other own =>
      cases own with
      | finish | stop | stopper => cases stepped
      | worker source =>
          refine onStack stepped id ?_
          rintro _ ⟨⟩
          rfl
      | polls => exact onStack stepped id nofun
  | proxy act =>
      cases act with
      | operation => cases stepped
      | count | answer =>
          obtain ⟨_, _, same⟩ := Option.map_eq_some_iff.mp stepped
          cases same
          exact .inl rfl

theorem Free.step (free : Free returns before) (none_new : takesUp label = false)
    (stepped : Quitting.step before label = some (after, events)) : Free returns after := by
  intro node
  rcases shutdowns_of_step stepped node with same | ⟨own, sent, moved, quiet, -⟩
  · exact same ▸ free node
  · exact (free node).step (quiet none_new) moved

theorem stuck_step {node : Node} {source : Source}
    (stays : (before.shutdowns node).stuck (returns node) source = true)
    (blocked : blocking returns before label = some (after, events)) :
    (after.shutdowns node).stuck (returns node) source = true := by
  obtain ⟨stepped, free⟩ := step_of_blocking blocked
  rcases shutdowns_of_step stepped node with same | ⟨own, sent, moved, -, mine⟩
  · rwa [same]
  · have unblocked : Shutdown.blocking (returns node) (stackOf node) (before.shutdowns node) own =
        some (after.shutdowns node, sent) := by
      cases own with
      | finish | stop | stopper | polls => exact moved
      | worker other =>
          have unstuck := free node other (mine other rfl)
          simp only [Shutdown.blocking, unstuck, Bool.false_eq_true, if_false]
          exact moved
    exact Shutdown.stuck_step stays unblocked

end Blocking

theorem Phase.thread (phase : Phase before) {node : Node} {label : Shutdown.Label}
    (own : label ≠ .finish ∧ label ≠ .stop ∧ label ≠ .stopper)
    (stepped : before.onStack node label before.place = some (after, events)) :
    Phase after ∧ after.past after.place + (waited before (.thread node label)).toNat ≤ before.past before.place := by
  obtain ⟨next, sent, moved, rfl, rfl⟩ := of_onStack stepped
  have stopped : ∀ other, (before.shutdowns other).Stopped →
      (Function.update before.shutdowns node next other).Stopped := by
    intro other stopped
    rw [Function.update_apply]
    split
    · rename_i same
      subst same
      exact (stopped.step moved).2.1
    · exact stopped
  have fresh : ∀ other, (before.shutdowns other).Fresh (stackOf other) →
      (Function.update before.shutdowns node next other).Fresh (stackOf other) := by
    intro other fresh
    rw [Function.update_apply]
    split
    · rename_i same
      subst same
      exact fresh.step own moved
    · exact fresh
  cases phase with
  | prompt here allFresh unasked =>
      refine ⟨.prompt here (fun other => fresh other (allFresh other)) unasked, ?_⟩
      simp [here, past, waited]
  | loop here split allStopped allFresh unasked =>
      refine ⟨.loop here split (fun other member => stopped other (allStopped other member))
        (fun other member => fresh other (allFresh other member)) unasked, ?_⟩
      simp [here, past, waited]
  | @stopping front rest current here split allStopped stopping allFresh unasked =>
      have goes : (Function.update before.shutdowns node next current).Stopping (stackOf current) ∧
          (Function.update before.shutdowns node next current).left (stackOf current) +
            (decide (node = current) && (before.shutdowns node).waited label).toNat ≤
              (before.shutdowns current).left (stackOf current) := by
        rw [Function.update_apply]
        split
        · rename_i same
          subst same
          simpa using stopping.step moved
        · rename_i other
          exact ⟨stopping, by simp [Ne.symm other]⟩
      refine ⟨.stopping here split (fun other member => stopped other (allStopped other member)) goes.1
        (fun other member => fresh other (allFresh other member)) unasked, ?_⟩
      have less := goes.2
      simp only [here, past, waited]
      omega
  | destroying here allStopped unasked =>
      refine ⟨.destroying here (fun other member => stopped other (allStopped other member)) unasked, ?_⟩
      simp [here, past, waited]
  | joining here allStopped asked =>
      refine ⟨.joining here (fun other member => stopped other (allStopped other member)) asked, ?_⟩
      simp [here, past, waited]
  | ended here allStopped ended =>
      refine ⟨.ended here (fun other member => stopped other (allStopped other member)) ended, ?_⟩
      rcases here with here | here <;> simp [here, past, waited]

theorem Phase.proxy (phase : Phase before) {act : Proxy.Act Unit} {proxy : Proxy.Steered Unit}
    {told : List (Proxy.Event Unit)} (own : ∀ operation, act ≠ .operation operation)
    (stepped : before.proxy.step act = some (proxy, told)) :
    Phase { before with proxy := proxy } ∧
      ({ before with proxy := proxy } : Quitting).past before.place + (waited before (.proxy act)).toNat ≤
        before.past before.place := by
  cases act with
  | operation operation => exact absurd rfl (own operation)
  | count counters =>
      simp only [Proxy.Steered.step, Option.ite_none_right_eq_some, Option.some.injEq, Prod.mk.injEq] at stepped
      obtain ⟨running, rfl, rfl⟩ := stepped
      have still (unasked : Unasked before.proxy) : Unasked { before.proxy with counters := counters } :=
        ⟨unasked.idle, unasked.alive, unasked.accepting, unasked.quiet, unasked.running⟩
      constructor
      · cases phase with
        | prompt here fresh unasked => exact .prompt here fresh (still unasked)
        | loop here split stopped fresh unasked => exact .loop here split stopped fresh (still unasked)
        | stopping here split stopped stopping fresh unasked =>
            exact .stopping here split stopped stopping fresh (still unasked)
        | destroying here stopped unasked => exact .destroying here stopped (still unasked)
        | joining here stopped asked => exact .joining here stopped asked
        | ended here stopped ended => exact .ended here stopped ended
      · cases here : before.place <;> simp [past, waited, here]
  | answer acknowledgement =>
      simp only [Proxy.Steered.step, Option.ite_none_right_eq_some] at stepped
      obtain ⟨running, answered⟩ := stepped
      have asks (unasked : Unasked before.proxy) : False := by
        simp [Proxy.Steered.answer, unasked.quiet] at answered
      cases phase with
      | prompt here fresh unasked => exact absurd unasked asks
      | loop here split stopped fresh unasked => exact absurd unasked asks
      | stopping here split stopped stopping fresh unasked => exact absurd unasked asks
      | destroying here stopped unasked => exact absurd unasked asks
      | joining here stopped asked =>
          simp only [Proxy.Steered.answer, asked running, Option.some.injEq, Prod.mk.injEq] at answered
          obtain ⟨rfl, rfl⟩ := answered
          refine ⟨.joining here stopped (by simp), ?_⟩
          simp [past, waited, here, running]
      | ended here stopped ended => simp [running] at ended

theorem Phase.of_stopping {front rest : List Node} {node : Node} {next : Shutdown} (split : front ++ node :: rest = nodes)
    (stopped : ∀ node ∈ front, (before.shutdowns node).Stopped) (stopping : next.Stopping (stackOf node))
    (fresh : ∀ node ∈ rest, (before.shutdowns node).Fresh (stackOf node)) (unasked : Unasked before.proxy) :
    Phase { before with
      place := .stopping node rest
      shutdowns := Function.update before.shutdowns node next } := by
  -- No node occurs twice in the list, so that those before and behind the stopped one are left alone.
  obtain ⟨-, apart, distinct⟩ := List.nodup_append.mp (split ▸ nodes_nodup)
  have others (other : Node) (unlike : other ≠ node) :
      Function.update before.shutdowns node next other = before.shutdowns other :=
    Function.update_of_ne unlike _ _
  refine .stopping rfl split (fun other member => ?_) ?_ (fun other member => ?_) unasked
  · have earlier := stopped other member
    rwa [← others other (distinct other member node (List.mem_cons_self ..))] at earlier
  · rwa [← Function.update_self node next before.shutdowns] at stopping
  · have unlike : other ≠ node := by
      rintro rfl
      exact (List.nodup_cons.mp apart).1 member
    have later := fresh other member
    rwa [← others other unlike] at later

theorem Phase.main (phase : Phase before) (stepped : before.mainStep = some (after, events)) :
    Phase after ∧ (before.place ≠ .prompt → after.past after.place + 1 ≤ before.past before.place) ∧
      after.place ≠ .prompt := by
  cases phase with
  | prompt here fresh unasked =>
      simp only [mainStep, here] at stepped
      cases stepped
      exact ⟨.loop rfl (List.nil_append _) (by simp) (fun node _ => fresh node) unasked, by simp [here], by simp⟩
  | @loop front rest here split stopped fresh unasked =>
      cases rest with
      | nil =>
          simp only [mainStep, here] at stepped
          cases stepped
          rw [List.append_nil] at split
          refine ⟨.destroying rfl (split ▸ stopped) unasked, ?_, by simp⟩
          simp [here, past]
      | cons node rest =>
          simp only [mainStep, here] at stepped
          obtain ⟨next, sent, moved, rfl, rfl⟩ := of_onStack stepped
          obtain ⟨stopping, bounded⟩ := (fresh node (List.mem_cons_self ..)).stop moved
          refine ⟨.of_stopping split stopped stopping (fun other member => fresh other (List.mem_cons_of_mem _ member))
            unasked, fun _ => ?_, by simp⟩
          simp only [past, here, Function.update_self, List.map_cons, List.sum_cons, toll]
          omega
  | @stopping front rest node here split stopped stopping fresh unasked =>
      simp only [mainStep, here] at stepped
      split at stepped
      · rename_i returned
        cases stepped
        refine ⟨.loop rfl (by rw [← split, List.append_cons]) (fun other member => ?_) fresh unasked, fun _ => ?_, by simp⟩
        · rcases List.mem_append.mp member with earlier | last
          · exact stopped other earlier
          · rw [List.mem_singleton.mp last]
            exact stopping.stopped_of_stopper returned
        · simp only [past, here]
          omega
      · obtain ⟨next, sent, moved, rfl, rfl⟩ := of_onStack stepped
        obtain ⟨still, less⟩ := stopping.step moved
        refine ⟨.of_stopping split stopped still fresh unasked, fun _ => ?_, by simp⟩
        simp only [Shutdown.waited, Bool.toNat_true] at less
        simp only [past, here, Function.update_self]
        omega
  | destroying here stopped unasked =>
      simp only [mainStep, here] at stepped
      obtain ⟨⟨proxy, told⟩, destroyed, same⟩ := Option.map_eq_some_iff.mp stepped
      cases same
      simp [Proxy.Steered.step, Proxy.Control.step, Proxy.Steered.exchange, unasked.idle, unasked.alive,
        unasked.accepting] at destroyed
      obtain ⟨rfl, -⟩ := destroyed
      refine ⟨.joining rfl stopped fun _ => rfl, ?_, by simp⟩
      simp [past, here, unasked.running]
  | joining here stopped asked =>
      simp only [mainStep, here] at stepped
      split at stepped <;> cases stepped
      rename_i ended
      rw [Bool.not_eq_true] at ended
      refine ⟨.ended (.inl rfl) stopped ended, ?_, by simp⟩
      simp [past, here, ended]
  | ended here stopped ended =>
      rcases here with here | here
      · simp only [mainStep, here] at stepped
        split at stepped <;> cases stepped
        refine ⟨.ended (.inr rfl) stopped ended, ?_, by simp⟩
        simp [past, here]
      · simp [mainStep, here] at stepped

/-- Every step of `main` behind the prompt, and every step that it waits for, leaves less to do. -/
theorem Phase.step (phase : Phase before) (stepped : Quitting.step before label = some (after, events)) :
    Phase after ∧ (before.place ≠ .prompt →
      after.place ≠ .prompt ∧ after.left + (waited before label).toNat ≤ before.left) := by
  have shorter : after.left ≤ after.past after.place := by
    rw [Quitting.left]
    split
    · exact Nat.zero_le _
    · exact Nat.le_refl _
  simp only [Quitting.step] at stepped
  split at stepped
  · cases stepped
  rename_i going
  have going : before.left = before.past before.place := if_neg going
  rw [going]
  cases label with
  | main =>
      obtain ⟨phase, less, behind⟩ := phase.main stepped
      exact ⟨phase, fun quit => ⟨behind, (Nat.add_le_add_right shorter _).trans (less quit)⟩⟩
  | thread node label =>
      cases label with
      | finish | stop | stopper => cases stepped
      | worker | polls =>
          obtain ⟨phase, less⟩ := phase.thread (by simp) stepped
          obtain ⟨_, _, _, rfl, _⟩ := of_onStack stepped
          exact ⟨phase, fun quit => ⟨quit, (Nat.add_le_add_right shorter _).trans less⟩⟩
  | proxy act =>
      cases act with
      | operation => cases stepped
      | count | answer =>
          obtain ⟨⟨proxy, told⟩, moved, same⟩ := Option.map_eq_some_iff.mp stepped
          cases same
          obtain ⟨phase, less⟩ := phase.proxy (by simp) moved
          exact ⟨phase, fun quit => ⟨quit, (Nat.add_le_add_right shorter _).trans less⟩⟩

theorem terminated_update_iff (going : before.terminated = false) (place : Place) (node : Node) (next : Shutdown) :
    ({ before with place := place, shutdowns := Function.update before.shutdowns node next } : Quitting).terminated =
      true ↔ next.terminated = true := by
  simp only [terminated, List.any_eq_false, List.any_eq_true, Function.update_apply] at going ⊢
  constructor
  · rintro ⟨other, member, ended⟩
    split at ended
    · exact ended
    · exact absurd ended (going other member)
  · exact fun ended => ⟨node, mem_nodes node, by simpa using ended⟩

theorem terminated_onStack_iff (going : before.terminated = false) {node : Node} {label : Shutdown.Label}
    {place : Place} (stepped : before.onStack node label place = some (after, events)) :
    after.terminated = true ↔ ∃ node msgs, (node, ⟨.server, msgs, false⟩) ∈ events := by
  obtain ⟨next, sent, moved, rfl, rfl⟩ := of_onStack stepped
  rw [terminated_update_iff going, Shutdown.step_terminated_iff moved]
  simp

theorem events_mainStep (stepped : before.mainStep = some (after, events)) : events = [] := by
  have silent {node : Node} {label : Shutdown.Label} {place : Place} (own : label = .stop ∨ label = .stopper)
      (stepped : before.onStack node label place = some (after, events)) : events = [] := by
    obtain ⟨next, sent, moved, rfl, rfl⟩ := of_onStack stepped
    have moved := Shutdown.step_moved moved
    rcases own with rfl | rfl <;> cases moved <;> rfl
  unfold mainStep at stepped
  split at stepped
  · cases stepped
    rfl
  · exact silent (.inl rfl) stepped
  · cases stepped
    rfl
  · split at stepped
    · cases stepped
      rfl
    · exact silent (.inr rfl) stepped
  · obtain ⟨_, _, same⟩ := Option.map_eq_some_iff.mp stepped
    cases same
    rfl
  · split at stepped <;> cases stepped
    rfl
  · split at stepped <;> cases stepped
    rfl
  · cases stepped

theorem terminated_mainStep (going : before.terminated = false) (stepped : before.mainStep = some (after, events)) :
    after.terminated = false := by
  have silent := events_mainStep stepped
  subst silent
  have onStack {node : Node} {label : Shutdown.Label} {place : Place}
      (stepped : before.onStack node label place = some (after, [])) : after.terminated = false := by
    rw [← Bool.not_eq_true, terminated_onStack_iff going stepped]
    simp
  unfold mainStep at stepped
  repeat' split at stepped
  all_goals first
    | exact onStack stepped
    | cases stepped
      exact going
    | cases stepped
    | obtain ⟨_, _, same⟩ := Option.map_eq_some_iff.mp stepped
      cases same
      exact going

/-- The process ends where the thread of a TCP server publishes after its stack has been stopped. -/
theorem step_terminated_iff (stepped : Quitting.step before label = some (after, events)) :
    after.terminated = true ↔ ∃ node msgs, (node, ⟨.server, msgs, false⟩) ∈ events := by
  simp only [Quitting.step] at stepped
  split at stepped
  · cases stepped
  rename_i going
  rw [Bool.not_eq_true] at going
  cases label with
  | main =>
      rw [events_mainStep stepped, terminated_mainStep going stepped]
      simp
  | thread node label =>
      cases label with
      | finish | stop | stopper => cases stepped
      | worker | polls => exact terminated_onStack_iff going stepped
  | proxy act =>
      cases act with
      | operation => cases stepped
      | count | answer =>
          obtain ⟨⟨proxy, told⟩, moved, same⟩ := Option.map_eq_some_iff.mp stepped
          cases same
          have still : ({ before with proxy := proxy } : Quitting).terminated = false := going
          simp [still]

theorem Phase.going (phase : Phase before) (own : waited before label = true)
    (stepped : Quitting.step before label = some (after, events)) : after.terminated = false := by
  simp only [Quitting.step] at stepped
  split at stepped
  · cases stepped
  rename_i going
  rw [Bool.not_eq_true] at going
  cases label with
  | main => exact terminated_mainStep going stepped
  | thread node label =>
      cases phase with
      | @stopping front rest current here split stopped stopping fresh unasked =>
          simp only [waited, here, Bool.and_eq_true, decide_eq_true_eq] at own
          obtain ⟨rfl, own⟩ := own
          cases label with
          | finish | stop | stopper => cases stepped
          | worker | polls =>
              obtain ⟨next, sent, moved, rfl, rfl⟩ := of_onStack stepped
              have alive := stopping.going own moved
              rw [← Bool.not_eq_true, terminated_update_iff going, alive]
              exact Bool.false_ne_true
      | prompt here | loop here | destroying here | joining here => simp [waited, here] at own
      | ended here => rcases here with here | here <;> simp [waited, here] at own
  | proxy act =>
      cases act with
      | operation => cases stepped
      | count | answer =>
          obtain ⟨⟨proxy, told⟩, moved, same⟩ := Option.map_eq_some_iff.mp stepped
          cases same
          exact going

/-- As long as `main` has not returned, it can go on, or what it waits for can if it is not stuck. -/
theorem Phase.exists_step {returns : Node → Source → Input → Bool} (phase : Phase before)
    (free : Free returns before) (unfinished : before.left ≠ 0) :
    ∃ label after events, takesUp label = false ∧ waited before label = true ∧
      blocking returns before label = some (after, events) := by
  have going : before.terminated = false := by
    by_contra ended
    exact unfinished (if_pos (by simpa using ended))
  have goes : before.mainStep.isSome →
      ∃ label after events, takesUp label = false ∧ waited before label = true ∧
        blocking returns before label = some (after, events) := by
    intro some
    obtain ⟨⟨after, events⟩, stepped⟩ := Option.isSome_iff_exists.mp some
    exact ⟨.main, after, events, rfl, rfl, by rw [blocking, Quitting.step, going]; exact stepped⟩
  cases phase with
  | prompt here => exact goes (by simp [mainStep, here])
  | @loop front rest here split stopped fresh unasked =>
      cases rest with
      | nil => exact goes (by simp [mainStep, here])
      | cons node rest =>
          have running := (fresh node (List.mem_cons_self ..)).running
          have alive := List.any_eq_false.mp going node (mem_nodes node)
          exact goes (by simp [mainStep, here, onStack, Shutdown.step, running, alive])
  | @stopping front rest node here split stopped stopping fresh unasked =>
      by_cases returned : (before.shutdowns node).stopper = .stopped
      · exact goes (by simp [mainStep, here, returned])
      · have alive := List.any_eq_false.mp going node (mem_nodes node)
        have unfinished : (before.shutdowns node).left (stackOf node) ≠ 0 := fun finished =>
          returned (stopping.stopped finished (by simpa using alive)).stopped
        obtain ⟨label, next, sent, none_new, own, blocked⟩ := Shutdown.exists_step (free node) unfinished
        obtain ⟨stepped, unstuck⟩ := Shutdown.step_of_blocking blocked
        cases label with
        | finish | stop => cases own
        | stopper => exact goes (by simp [mainStep, here, returned, onStack, stepped])
        | worker source =>
            exact ⟨.thread node (.worker source), _, _, rfl, by simp [waited, here, own],
              by simp [blocking, unstuck source rfl, Quitting.step, going, onStack, stepped]; exact ⟨rfl, rfl⟩⟩
        | polls source input =>
            exact ⟨.thread node (.polls source input), _, _, none_new, by simp [waited, here, own],
              by simp [blocking, Quitting.step, going, onStack, stepped]; exact ⟨rfl, rfl⟩⟩
  | destroying here stopped unasked =>
      exact goes (by simp [mainStep, here, Proxy.Steered.step, Proxy.Control.step, Proxy.Steered.exchange,
        unasked.idle, unasked.alive, unasked.accepting])
  | joining here stopped asked =>
      cases running : before.proxy.running with
      | false => exact goes (by simp [mainStep, here, running])
      | true =>
          refine ⟨.proxy (.answer none), ?_⟩
          simp [takesUp, waited, here, blocking, Quitting.step, going, Proxy.Steered.step, running,
            Proxy.Steered.answer, asked running]
  | ended here stopped ended =>
      rcases here with here | here
      · have shut : ∀ node ∈ nodes, Shut (before.shutdowns node) := fun node member =>
          ⟨(stopped node member).closed, (stopped node member).subscriber⟩
        exact goes (by simpa [mainStep, here] using shut)
      · simp [Quitting.left, past, here] at unfinished

end Step

def draining : Draining step (fun _ => True) waited where
  holds state := Phase state ∧ state.place ≠ .prompt
  left := left
  pays _ _ _ _ holds _ stepped := by
    obtain ⟨phase, paid⟩ := holds.1.step stepped
    obtain ⟨behind, less⟩ := paid holds.2
    exact ⟨⟨phase, behind⟩, less⟩

def returning (returns : Node → Source → Input → Bool) :
    Draining (blocking returns) (fun label => takesUp label = false) waited where
  holds state := (Phase state ∧ state.place ≠ .prompt) ∧ Free returns state
  left := left
  pays _ _ _ _ holds none_new blocked := by
    obtain ⟨stepped, -⟩ := step_of_blocking blocked
    obtain ⟨behind, less⟩ := draining.pays _ _ _ _ holds.1 trivial stepped
    exact ⟨⟨behind, holds.2.step none_new stepped⟩, less⟩

section Runs
variable {start middle final : Quitting}
  {steps more : List (Taken Quitting Label (Node × Shutdown.Sent))} {events : List (Node × Shutdown.Sent)}

theorem Phase.returned {state : Quitting} (phase : Phase state) (behind : state.place ≠ .prompt)
    (finished : state.left = 0) (going : state.terminated = false) :
    state.place = .returned ∧ (∀ node ∈ nodes, (state.shutdowns node).Stopped) ∧ state.proxy.running = false := by
  rw [left, going, if_neg Bool.false_ne_true] at finished
  cases phase with
  | prompt here => exact absurd here behind
  | loop here | stopping here | destroying here | joining here => simp [past, here] at finished
  | ended here stopped ended =>
      rcases here with here | here
      · simp [past, here] at finished
      · exact ⟨here, stopped, ended⟩

theorem run_phase (run : Run step start steps final) (phase : Phase start) : Phase final :=
  run.always Phase phase fun _ _ _ _ now stepped => (now.step stepped).1

theorem run_going (run : Run step start steps final) (phase : Phase start) (going : start.terminated = false)
    (own : ∀ taken ∈ steps, waited taken.before taken.label = true) : final.terminated = false := by
  have both := run.invariant (fun taken => waited taken.before taken.label = true)
    (fun state => Phase state ∧ state.terminated = false) ⟨phase, going⟩ ?_ own
  · exact both.2
  · rintro before label after events ⟨phase, -⟩ own stepped
    exact ⟨(phase.step stepped).1, phase.going own stepped⟩

theorem run_terminated_iff (run : Run step start steps final) (going : start.terminated = false) :
    final.terminated = true ↔ ∃ node msgs, (node, ⟨.server, msgs, false⟩) ∈ trace steps := by
  induction run with
  | nil => simp [going]
  | @snoc steps before after label events _ stepped ih =>
      have alive : before.terminated = false := by
        by_contra ended
        simp [step, ended] at stepped
      have none : ∀ node msgs, (node, ⟨.server, msgs, false⟩) ∉ trace steps := by
        simpa [alive] using ih
      simp [step_terminated_iff stepped, none]

theorem run_stuck {returns : Node → Source → Input → Bool} {node : Node} {source : Source}
    (stays : (start.shutdowns node).stuck (returns node) source = true)
    (run : Run (blocking returns) start steps final) :
    (final.shutdowns node).stuck (returns node) source = true :=
  run.always (fun state => (state.shutdowns node).stuck (returns node) source = true) stays
    fun _ _ _ _ => stuck_step

/-- After the line `quit`, whatever the other threads do, `main` takes no more than 111 steps, with those
that it waits for. It can take those that are left, unless the process has ended, as soon as the callbacks
return that the subscribers' threads are in, and returns with all stacks stopped, the proxy ended and no socket
of the context open; if one of these does not return, nor does `main`. The process ends otherwise exactly if the thread of a
TCP server publishes on the closed socket of a stack that is being stopped, or has been. -/
theorem quit_returns (returns : Node → Source → Input → Bool) (run : Run (blocking returns) initial steps start)
    (prompting : start.place = .prompt) (quit : step start .main = some (middle, events))
    (further : Run (blocking returns) middle more final) :
    more.countP (fun taken => waited taken.before taken.label) ≤ 111 ∧
      (final.terminated = true ↔ ∃ node msgs, (node, ⟨.server, msgs, false⟩) ∈ trace more) ∧
      (final.terminated = false → Free returns final → ∃ rest last, Run (blocking returns) final rest last ∧
        (∀ taken ∈ rest, waited taken.before taken.label = true) ∧
        more.countP (fun taken => waited taken.before taken.label) + rest.length ≤ 111 ∧
        last.terminated = false ∧ last.place = .returned ∧ (∀ node, (last.shutdowns node).Stopped) ∧
        last.proxy.running = false) ∧
      (¬ Free returns final → ∀ rest last, Run (blocking returns) final rest last → last.place ≠ .returned) := by
  have prompted := run_phase (run_of_blocking run) .initial
  have entered : middle.place = .loop nodes ∧ middle.terminated = false := by
    simp only [step] at quit
    split at quit
    · cases quit
    rename_i going
    simp only [mainStep, prompting] at quit
    cases quit
    exact ⟨rfl, by simpa [terminated] using going⟩
  have phase := (prompted.step quit).1
  have holds : Phase middle ∧ middle.place ≠ .prompt := ⟨phase, by simp [entered.1]⟩
  have all : (nodes.map toll).sum + 5 = 111 := by decide
  have steps_left : middle.left = 111 := by
    rw [left, entered.2, entered.1]
    exact all
  have onward := run_of_blocking further
  obtain ⟨now, bound⟩ := draining.count_le onward (fun _ _ => trivial) holds
  have total : draining.left middle = 111 := steps_left
  have spent : draining.left final = final.left := rfl
  refine ⟨by omega, run_terminated_iff onward entered.2, fun going free => ?_, fun held rest last on reached => ?_⟩
  · obtain ⟨rest, last, back, own, ⟨⟨phase, behind⟩, -⟩, finished, short⟩ :=
      (returning returns).exists_done ⟨now, free⟩ fun state holds unfinished =>
        holds.1.1.exists_step holds.2 unfinished
    have less : rest.length ≤ final.left := short
    have alive := run_going (run_of_blocking back) (run_phase onward holds.1) going own
    obtain ⟨here, stopped, ended⟩ := phase.returned behind finished alive
    exact ⟨rest, last, back, own, by omega, alive, here, fun node => stopped node (mem_nodes node), ended⟩
  · simp only [Free, Shutdown.Free, not_forall, Bool.not_eq_false] at held
    obtain ⟨node, source, other, stays⟩ := held
    have ended := run_phase (run_of_blocking on) now.1
    have stopped : (last.shutdowns node).Stopped := by
      cases ended with
      | ended here stopped => exact stopped node (mem_nodes node)
      | prompt here | loop here | stopping here | destroying here | joining here => simp [reached] at here
    cases (run_stuck stays on).symm.trans (stopped.not_stuck other)

end Runs

/-- A client of the first TCP stack sends data while `main` waits for the first stack. -/
theorem quit_returns_busy : ∃ middle more final rest last, Run (blocking fun _ _ _ => true) middle more final ∧
    Run (blocking fun _ _ _ => true) final rest last ∧ middle.place = .loop nodes ∧
    trace more = [(.net .netA, ⟨.server, .publication "net-a-ingress".toList "hello".toList, true⟩)] ∧
    more.countP (fun taken => waited taken.before taken.label) + rest.length ≤ 111 ∧ last.place = .returned := by
  have computed : (step initial .main).any (fun (middle, _) =>
      (exec (blocking fun _ _ _ => true) middle [.thread (.net .netA) (.worker .server), .main,
        .thread (.stack 0) (.worker .subscriber),
        .thread (.net .netA) (.polls .server (some (.clientData (toBytes "hello".toList)))),
        .thread (.net .netA) (.worker .server), .thread (.net .netA) (.worker .server)]).any
          fun (more, final) => decide (middle.place = .loop nodes) && !final.terminated &&
            decide (trace more =
              [(.net .netA, ⟨.server, .publication "net-a-ingress".toList "hello".toList, true⟩)])) = true := by
    decide +kernel
  obtain ⟨⟨middle, events⟩, quit, computed⟩ := (Option.any_eq_true _ _).mp computed
  obtain ⟨more, final, further, checked⟩ := exists_run_of_exec computed
  simp only [Bool.and_eq_true, Bool.not_eq_true', decide_eq_true_eq] at checked
  obtain ⟨⟨entered, going⟩, published⟩ := checked
  have free : Free (fun _ _ _ => true) final := by
    intro node source _
    rw [Shutdown.stuck]
    split <;> rfl
  obtain ⟨rest, last, back, _, bound, _, returned, _⟩ := (quit_returns _ .nil rfl quit further).2.2.1 going free
  exact ⟨middle, more, final, rest, last, further, back, entered, published, bound, returned⟩

end Quitting

end InprocStackMain

end ZmqPlayground
