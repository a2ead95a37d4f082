import ZmqPlayground.Library.Runs
import ZmqPlayground.Library.Table
import ZmqPlayground.ZmqProxy.Statistics

/-! The request socket of the proxy between the threads that use it.

`Stats` and `Status` hold the mutex while they ask and wait for the reply. `Stop` takes
no mutex and reads no reply, so its request stays outstanding and the one the destructor
makes comes on top of it.
-/

set_option autoImplicit false

namespace ZmqPlayground

open Library Library.Runs

namespace Proxy

inductive Operation where
  | stats
  | status
  | stop
  deriving DecidableEq

inductive Pc where
  | lock
  | send
  | receive
  | unlock
  | sendTerminate
  deriving DecidableEq

/-- In the body of `Stats`. -/
def Pc.locked : Pc → Bool
  | .send | .receive | .unlock => true
  | .lock | .sendTerminate => false

/-- `Status` is a call to `Stats` and works on its own copy of the statistics. -/
def Operation.entry : Operation → Pc
  | .stats => .lock
  | .status => .lock
  | .stop => .sendTerminate

inductive Request where
  | send
  | receive
  deriving DecidableEq

/-- The socket by whether a request awaits its reply, and the calls that are under way. -/
structure Control (Thread : Type) where
  mutex : Option Thread
  outstanding : Bool
  calls : Table Thread Pc
  destroyed : Bool

variable {Thread : Type}

/-- What the environment chooses: which thread moves, and what a receive ends with. No result
stands for a receive that throws, too: `Stats` returns on either, and its guard unlocks. -/
inductive Label (Thread : Type) where
  | call (thread : Thread) (operation : Operation)
  | lock (thread : Thread)
  | send (thread : Thread)
  | receive (thread : Thread) (reply : Reply)
  | unlock (thread : Thread)
  | destroy
  deriving DecidableEq

namespace Control

def initial : Control Thread := ⟨none, false, ∅, false⟩

def setMutex (control : Control Thread) (mutex : Option Thread) : Control Thread :=
  { control with mutex := mutex }

/-- The socket accepts a request, or fails with `EFSM` because one is outstanding. -/
def request (control : Control Thread) : Control Thread :=
  { control with outstanding := true }

def reply (control : Control Thread) (received : Reply) : Control Thread :=
  { control with outstanding := control.outstanding && received.isNone }

/-- The socket is used in its turn: a send while no request is outstanding, a receive while one is. -/
def Strict (taken : Taken (Control Thread) (Label Thread) Request) : Prop :=
  ∀ request ∈ taken.events, (request = .receive ↔ taken.before.outstanding = true)

instance (taken : Taken (Control Thread) (Label Thread) Request) : Decidable (Strict taken) :=
  inferInstanceAs (Decidable (∀ request ∈ taken.events, (request = .receive ↔ _)))

theorem strict_send_iff {before : Control Thread} {label : Label Thread} :
    Strict ⟨before, label, [.send]⟩ ↔ before.outstanding = false := by
  simp [Strict]

/-- No thread calls `Stop`, which reads no reply, and every receive ends with a reply. -/
def Replied : Label Thread → Prop
  | .call _ operation => operation ≠ .stop
  | .receive _ received => received ≠ none
  | .lock _ | .send _ | .unlock _ | .destroy => True

instance (label : Label Thread) : Decidable (Replied label) :=
  match label with
  | .call _ operation => inferInstanceAs (Decidable (operation ≠ .stop))
  | .receive _ received => inferInstanceAs (Decidable (received ≠ none))
  | .lock _ | .send _ | .unlock _ | .destroy => inferInstanceAs (Decidable True)

section Fields
variable (control : Control Thread) (mutex : Option Thread) (received : Reply)

@[simp] theorem setMutex_outstanding :
    (control.setMutex mutex).outstanding = control.outstanding := rfl

@[simp] theorem setMutex_destroyed : (control.setMutex mutex).destroyed = control.destroyed := rfl

@[simp] theorem request_destroyed : control.request.destroyed = control.destroyed := rfl

@[simp] theorem reply_destroyed : (control.reply received).destroyed = control.destroyed := rfl

end Fields

variable [DecidableEq Thread]

def pc (control : Control Thread) (thread : Thread) : Option Pc :=
  control.calls.lookup thread

def goto (control : Control Thread) (thread : Thread) (next : Pc) : Control Thread :=
  { control with calls := control.calls.insert thread next }

def leave (control : Control Thread) (thread : Thread) : Control Thread :=
  { control with calls := control.calls.erase thread }

/-- Steps of the operations, at the granularity of the mutex and of single socket calls. The
destructor runs once no call is under way, and nothing is called after it. -/
def step : Step (Control Thread) (Label Thread) Request
  | control, .call thread operation =>
      if control.pc thread = none ∧ control.destroyed = false then
        some (control.goto thread operation.entry, [])
      else none
  | control, .lock thread =>
      if control.pc thread = some .lock ∧ control.mutex = none then
        some ((control.setMutex thread).goto thread .send, [])
      else none
  | control, .send thread =>
      match control.pc thread with
      -- An exception of the socket leaves `Stats`, and its guard unlocks.
      | some .send =>
          some (control.request.goto thread (if control.outstanding then .unlock else .receive),
            [.send])
      | some .sendTerminate => some (control.request.leave thread, [.send])
      | _ => none
  | control, .receive thread received =>
      if control.pc thread = some .receive then
        some ((control.reply received).goto thread .unlock, [.receive])
      else none
  | control, .unlock thread =>
      if control.pc thread = some .unlock then some ((control.setMutex none).leave thread, [])
      else none
  | control, .destroy =>
      if control.calls.keys = [] ∧ control.destroyed = false then
        some ({ control.request with destroyed := true }, [.send])
      else none

section Calls
variable (control : Control Thread) (thread other : Thread) (next : Pc)

@[simp] theorem pc_goto :
    (control.goto thread next).pc other = if other = thread then some next else control.pc other :=
  Table.lookup_insert _ _ _ _

@[simp] theorem pc_leave :
    (control.leave thread).pc other = if other = thread then none else control.pc other :=
  Table.lookup_erase _ _ _

@[simp] theorem pc_setMutex (mutex : Option Thread) : (control.setMutex mutex).pc other = control.pc other :=
  rfl

@[simp] theorem pc_request : control.request.pc other = control.pc other := rfl

@[simp] theorem pc_reply (received : Reply) : (control.reply received).pc other = control.pc other :=
  rfl

@[simp] theorem goto_outstanding : (control.goto thread next).outstanding = control.outstanding := rfl

@[simp] theorem leave_outstanding : (control.leave thread).outstanding = control.outstanding := rfl

@[simp] theorem goto_destroyed : (control.goto thread next).destroyed = control.destroyed := rfl

@[simp] theorem leave_destroyed : (control.leave thread).destroyed = control.destroyed := rfl

theorem pc_of_idle (idle : control.calls.keys = []) : control.pc other = none := by
  rw [pc, AList.lookup_eq_none, AList.mem_keys, idle]
  exact List.not_mem_nil

end Calls

inductive Moved (before : Control Thread) : Label Thread → Control Thread → List Request → Prop where
  | called {thread : Thread} {operation : Operation} (here : before.pc thread = none)
      (alive : before.destroyed = false) :
      Moved before (.call thread operation) (before.goto thread operation.entry) []
  | locked {thread : Thread} (here : before.pc thread = some .lock) (free : before.mutex = none) :
      Moved before (.lock thread) ((before.setMutex thread).goto thread .send) []
  | sent {thread : Thread} (here : before.pc thread = some .send) :
      Moved before (.send thread)
        (before.request.goto thread (if before.outstanding then .unlock else .receive)) [.send]
  | stopped {thread : Thread} (here : before.pc thread = some .sendTerminate) :
      Moved before (.send thread) (before.request.leave thread) [.send]
  | received {thread : Thread} {received : Reply} (here : before.pc thread = some .receive) :
      Moved before (.receive thread received) ((before.reply received).goto thread .unlock) [.receive]
  | unlocked {thread : Thread} (here : before.pc thread = some .unlock) :
      Moved before (.unlock thread) ((before.setMutex none).leave thread) []
  | destroyed (idle : before.calls.keys = []) (alive : before.destroyed = false) :
      Moved before .destroy { before.request with destroyed := true } [.send]

variable {before after : Control Thread} {label : Label Thread} {events : List Request}

theorem step_moved (stepped : step before label = some (after, events)) :
    Moved before label after events := by
  cases label with
  | call thread operation =>
      simp only [step, Option.ite_none_right_eq_some, Option.some.injEq, Prod.mk.injEq] at stepped
      obtain ⟨⟨here, alive⟩, rfl, rfl⟩ := stepped
      exact .called here alive
  | lock thread =>
      simp only [step, Option.ite_none_right_eq_some, Option.some.injEq, Prod.mk.injEq] at stepped
      obtain ⟨⟨here, free⟩, rfl, rfl⟩ := stepped
      exact .locked here free
  | send thread =>
      simp only [step] at stepped
      split at stepped
      · rename_i here
        cases stepped
        exact .sent here
      · rename_i here
        cases stepped
        exact .stopped here
      · cases stepped
  | receive thread received =>
      simp only [step, Option.ite_none_right_eq_some, Option.some.injEq, Prod.mk.injEq] at stepped
      obtain ⟨here, rfl, rfl⟩ := stepped
      exact .received here
  | unlock thread =>
      simp only [step, Option.ite_none_right_eq_some, Option.some.injEq, Prod.mk.injEq] at stepped
      obtain ⟨here, rfl, rfl⟩ := stepped
      exact .unlocked here
  | destroy =>
      simp only [step, Option.ite_none_right_eq_some, Option.some.injEq, Prod.mk.injEq] at stepped
      obtain ⟨⟨idle, alive⟩, rfl, rfl⟩ := stepped
      exact .destroyed idle alive

/-- What the operations keep in any case: the body of `Stats` holds the mutex, who waits for a reply
has made a request, and no call outlives the proxy. -/
structure Held (control : Control Thread) : Prop where
  owner : ∀ thread next, control.pc thread = some next → next.locked = true →
    control.mutex = some thread
  asked : ∀ thread, control.pc thread = some .receive → control.outstanding = true
  ended : control.destroyed = true → ∀ thread, control.pc thread = none

theorem Held.initial : Held (initial : Control Thread) where
  owner _ _ here := by cases here
  asked _ here := by cases here
  ended _ _ := rfl

/-- No two threads are in the body of `Stats` at once. -/
theorem Held.eq_of_locked {control : Control Thread} (held : Held control) {first second : Thread}
    {one two : Pc} (here : control.pc first = some one) (inside : one.locked = true)
    (there : control.pc second = some two) (also : two.locked = true) : first = second :=
  Option.some.inj ((held.owner _ _ here inside).symm.trans (held.owner _ _ there also))

theorem Held.alive (held : Held before) (moved : Moved before label after events) :
    before.destroyed = false := by
  by_contra gone
  have ended := held.ended (Bool.not_eq_false _ ▸ gone)
  cases moved with
  | called _ alive => exact gone alive
  | destroyed _ alive => exact gone alive
  | locked here | sent here | stopped here | received here | unlocked here =>
      rw [ended] at here
      cases here

theorem Held.of_pc {thread : Thread} {place : Option Pc} (alive : after.destroyed = false)
    (moves : ∀ other, after.pc other = if other = thread then place else before.pc other)
    (owns : ∀ next, place = some next → next.locked = true → after.mutex = some thread)
    (asks : place = some .receive → after.outstanding = true)
    (owners : ∀ other next, other ≠ thread → before.pc other = some next → next.locked = true →
      after.mutex = some other)
    (asked : ∀ other, other ≠ thread → before.pc other = some .receive → after.outstanding = true) :
    Held after := by
  refine ⟨fun other next there inside => ?_, fun other there => ?_, fun gone => ?_⟩
  · rw [moves] at there
    split at there
    · rename_i same
      exact same ▸ owns next there inside
    · rename_i distinct
      exact owners other next distinct there inside
  · rw [moves] at there
    split at there
    · exact asks there
    · rename_i distinct
      exact asked other distinct there
  · exact absurd (gone.symm.trans alive) Bool.noConfusion

theorem Held.moved (held : Held before) (moved : Moved before label after events) : Held after := by
  have alive := held.alive moved
  have owners : ∀ thread other next, other ≠ thread → before.pc other = some next →
      next.locked = true → before.mutex = some other := fun _ other next _ => held.owner other next
  have asked : ∀ thread other, other ≠ thread → before.pc other = some .receive →
      before.outstanding = true := fun _ other _ => held.asked other
  cases moved with
  | @called thread operation here =>
      refine .of_pc alive (pc_goto _ _ · _) ?_ ?_ (owners thread) (asked thread)
      · rintro next ⟨⟩ inside
        cases operation <;> cases inside
      · intro here
        cases operation <;> cases here
  | @locked thread here free =>
      refine .of_pc alive (pc_goto _ _ · _) (fun _ _ _ => rfl) (by rintro ⟨⟩) ?_ (asked thread)
      intro other next _ there inside
      have taken := held.owner other next there inside
      rw [free] at taken
      cases taken
  | @sent thread here =>
      exact .of_pc alive (pc_goto _ _ · _) (fun _ _ _ => held.owner thread _ here rfl) (fun _ => rfl)
        (owners thread) fun _ _ _ => rfl
  | @stopped thread here =>
      exact .of_pc alive (pc_leave _ _) (by rintro _ ⟨⟩) (fun _ => rfl) (owners thread)
        fun _ _ _ => rfl
  | @received thread received here =>
      -- The reply is for this thread: no other is in the body of `Stats` to wait for one.
      refine .of_pc alive (pc_goto _ _ · _) (fun _ _ _ => held.owner thread _ here rfl) (by rintro ⟨⟩)
        (owners thread) fun other distinct there => ?_
      exact absurd (held.eq_of_locked there rfl here rfl) distinct
  | @unlocked thread here =>
      refine .of_pc alive (pc_leave _ _) (by rintro _ ⟨⟩) (by rintro ⟨⟩) ?_ (asked thread)
      -- The mutex is given up, but nobody else has claimed to hold it.
      intro other next distinct there inside
      exact absurd (held.eq_of_locked there inside here rfl) distinct
  | destroyed idle =>
      exact ⟨held.owner, fun _ _ => rfl, fun _ other => pc_of_idle before other idle⟩

def Elsewhere (control : Control Thread) (thread : Thread) (place : Pc) : Prop :=
  ∃ other, other ≠ thread ∧ control.pc other = some place

def Somewhere (control : Control Thread) (place : Pc) : Prop :=
  ∃ thread, control.pc thread = some place

theorem somewhere_iff (control : Control Thread) (thread : Thread) (place : Pc) :
    control.Somewhere place ↔ control.pc thread = some place ∨ control.Elsewhere thread place := by
  constructor
  · rintro ⟨other, there⟩
    by_cases same : other = thread
    · exact .inl (same ▸ there)
    · exact .inr ⟨other, same, there⟩
  · rintro (here | ⟨other, _, there⟩)
    · exact ⟨thread, here⟩
    · exact ⟨other, there⟩

section Elsewhere
variable (control : Control Thread) (thread : Thread) (place next : Pc)

@[simp] theorem elsewhere_goto :
    (control.goto thread next).Elsewhere thread place ↔ control.Elsewhere thread place :=
  exists_congr fun other => and_congr_right fun distinct => by rw [pc_goto, if_neg distinct]

@[simp] theorem elsewhere_leave :
    (control.leave thread).Elsewhere thread place ↔ control.Elsewhere thread place :=
  exists_congr fun other => and_congr_right fun distinct => by rw [pc_leave, if_neg distinct]

@[simp] theorem elsewhere_setMutex (mutex : Option Thread) :
    (control.setMutex mutex).Elsewhere thread place ↔ control.Elsewhere thread place := Iff.rfl

@[simp] theorem elsewhere_request :
    control.request.Elsewhere thread place ↔ control.Elsewhere thread place := Iff.rfl

@[simp] theorem elsewhere_reply (received : Reply) :
    (control.reply received).Elsewhere thread place ↔ control.Elsewhere thread place := Iff.rfl

end Elsewhere

theorem Held.not_elsewhere (held : Held before) {thread : Thread} {place one : Pc}
    (here : before.pc thread = some one) (inside : one.locked = true) (also : place.locked = true) :
    ¬ before.Elsewhere thread place :=
  fun ⟨_, distinct, there⟩ => distinct (held.eq_of_locked there also here inside)

/-- The socket is fit to be asked: no thread is about to make the request of `Stop`, and every
request that is outstanding has a thread waiting for its reply. -/
def Orderly (control : Control Thread) : Prop :=
  ¬ control.Somewhere .sendTerminate ∧ (control.outstanding = true → control.Somewhere .receive)

/-- A step in turn leaves an orderly proxy, or none, exactly if it found one and is answered. -/
theorem Held.orderly_iff (held : Held before) (moved : Moved before label after events) :
    Strict ⟨before, label, events⟩ ∧ (after.destroyed = true ∨ after.Orderly) ↔
      before.Orderly ∧ Replied label := by
  have alive := held.alive moved
  cases moved with
  | @called thread operation here =>
      simp only [Orderly, somewhere_iff _ thread, pc_goto, elsewhere_goto, here]
      cases operation <;> simp [Operation.entry, Replied, Strict, alive]
  | @locked thread here =>
      simp only [Orderly, somewhere_iff _ thread, pc_goto, elsewhere_goto, elsewhere_setMutex, here]
      simp [Replied, Strict, alive]
  | @sent thread here =>
      -- The mutex keeps all others from waiting for a reply.
      have alone := held.not_elsewhere here rfl (show Pc.receive.locked = true from rfl)
      rw [strict_send_iff]
      simp only [Orderly, somewhere_iff _ thread, pc_goto, elsewhere_goto, elsewhere_request, here,
        alone]
      cases before.outstanding <;> simp [Replied, alive]
  | @stopped thread here =>
      -- `Stop` leaves a request that nobody waits for, so neither side can hold.
      have stopping : before.Somewhere .sendTerminate := ⟨thread, here⟩
      rw [strict_send_iff]
      refine iff_of_false ?_ fun both => both.1.1 stopping
      rintro ⟨free, gone | ⟨_, awaited⟩⟩
      · exact absurd (gone.symm.trans alive) Bool.noConfusion
      · obtain ⟨other, there⟩ := awaited rfl
        rw [pc_leave, pc_request] at there
        split at there
        · cases there
        · exact absurd (free.symm.trans (held.asked other there)) Bool.noConfusion
  | @received thread received here =>
      have alone := held.not_elsewhere here rfl (show Pc.receive.locked = true from rfl)
      -- The reply releases the socket; without one the request stays outstanding, and nobody waits.
      have asked := held.asked thread here
      simp only [Orderly, somewhere_iff _ thread, pc_goto, elsewhere_goto, elsewhere_reply, here,
        alone]
      cases received <;> simp [Replied, Strict, reply, alive, asked]
  | @unlocked thread here =>
      simp only [Orderly, somewhere_iff _ thread, pc_leave, elsewhere_leave, elsewhere_setMutex, here]
      simp [Replied, Strict, alive]
  | destroyed idle =>
      -- The destructor runs when no call is under way, and its own request is the last one.
      have nobody : ∀ place, ¬ before.Somewhere place := by
        rintro place ⟨thread, there⟩
        rw [pc_of_idle _ _ idle] at there
        cases there
      rw [strict_send_iff]
      simp [Orderly, nobody, Replied]

theorem strict_orderly_iff {final : Control Thread} {steps} (run : Run step initial steps final) :
    Held final ∧ ((∀ taken ∈ steps, Strict taken) ∧ (final.destroyed = true ∨ final.Orderly) ↔
      ∀ taken ∈ steps, Replied taken.label) := by
  induction run with
  | nil =>
      refine ⟨.initial, iff_of_true ⟨by simp, .inr ⟨?_, ?_⟩⟩ (by simp)⟩
      · rintro ⟨_, here⟩
        cases here
      · intro outstanding
        cases outstanding
  | snoc run stepped ih =>
      obtain ⟨held, ih⟩ := ih
      have moved := step_moved stepped
      refine ⟨held.moved moved, ?_⟩
      simp only [held.alive moved, Bool.false_eq_true, false_or] at ih
      simp only [List.forall_mem_append, List.forall_mem_singleton, and_assoc]
      rw [held.orderly_iff moved, ← and_assoc, ih]

/-- Over the life of a proxy, the request socket is used in strict alternation exactly if no thread
calls `Stop` and every receive ends with a reply. -/
theorem strict_iff_replied {final : Control Thread} {steps} (run : Run step initial steps final)
    (destroyed : final.destroyed = true) :
    (∀ taken ∈ steps, Strict taken) ↔ ∀ taken ∈ steps, Replied taken.label := by
  rw [← (strict_orderly_iff run).2]
  exact ⟨fun strict => ⟨strict, .inl destroyed⟩, fun both => both.1⟩

/-- One call to `Stats` and the destructor. -/
theorem strict_iff_replied_stats : ∃ steps final, Run step (initial : Control ℕ) steps final ∧
    final.destroyed = true ∧ steps.length = 6 ∧ ∀ taken ∈ steps, Strict taken := by
  have computed : (exec step (initial : Control ℕ) [.call 0 .stats, .lock 0, .send 0,
      .receive 0 (some [0, 0, 0, 0, 0, 0, 0, 0]), .unlock 0, .destroy]).any (fun (steps, final) =>
        final.destroyed && (steps.length == 6 && steps.all (Replied ·.label))) = true := by
    decide +kernel
  obtain ⟨steps, final, run, computed⟩ := exists_run_of_exec computed
  simp only [Bool.and_eq_true, beq_iff_eq, List.all_eq_true, decide_eq_true_eq] at computed
  obtain ⟨destroyed, six, replied⟩ := computed
  exact ⟨steps, final, run, destroyed, six, (strict_iff_replied run destroyed).mpr replied⟩

/-- One call to `Stop`: the destructor stops the proxy again, while the first request is outstanding. -/
theorem stopped_twice : ∃ steps final, Run step (initial : Control ℕ) steps final ∧
    steps.map (·.label) = [.call 0 .stop, .send 0, .destroy] ∧ final.destroyed = true ∧
      ∃ taken ∈ steps, ¬ Strict taken := by
  have computed : (exec step (initial : Control ℕ) [.call 0 .stop, .send 0, .destroy]).any
      (fun (steps, final) => decide (steps.map (·.label) = [.call 0 .stop, .send 0, .destroy]) &&
        (final.destroyed && steps.any fun taken => decide (¬ Strict taken))) = true := by
    decide +kernel
  obtain ⟨steps, final, run, computed⟩ := exists_run_of_exec computed
  simp only [Bool.and_eq_true, List.any_eq_true, decide_eq_true_eq] at computed
  exact ⟨steps, final, run, computed⟩

end Control

end Proxy

end ZmqPlayground
