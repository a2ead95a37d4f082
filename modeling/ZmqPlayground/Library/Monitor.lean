import ZmqPlayground.Library.Runs
import ZmqPlayground.Library.Table

/-! Operations on shared data that hold one lock from beginning to end.

The threads are scheduled freely between the small steps of their operations, and
nothing but the lock keeps a step of one operation out of the middle of another.
-/

set_option autoImplicit false

namespace Library

open Runs

/-- The bodies of the operations, in steps that have at most one output each. A body has ended where
no work is left, and it ends. -/
structure Monitor (S Op Local E : Type) where
  enter : Op → Local
  work : S → Local → Option (S × Local × Option E)
  size : S → Local → ℕ
  shrinks : ∀ shared here after next output,
    work shared here = some (after, next, output) → size after next < size shared here

namespace Monitor

variable {Thread S Op Local E : Type}

inductive Call (Op Local : Type) where
  | waiting (operation : Op)
  | inside (operation : Op) (here : Local)

structure State (Thread S Op Local : Type) where
  shared : S
  mutex : Option Thread
  calls : Table Thread (Call Op Local)

inductive Label (Thread Op : Type) where
  | call (thread : Thread) (operation : Op)
  | lock (thread : Thread)
  | work (thread : Thread)
  | unlock (thread : Thread)

inductive Event (Thread Op E : Type) where
  | locked (thread : Thread) (operation : Op)
  | emitted (thread : Thread) (output : E)
  | unlocked (thread : Thread) (operation : Op)
  deriving DecidableEq

/-- The operations of a trace by the order in which they have taken the lock. -/
def order (events : List (Event Thread Op E)) : List (Thread × Op) :=
  events.filterMap fun
    | .locked thread operation => some (thread, operation)
    | .emitted _ _ | .unlocked _ _ => none

def outputs (events : List (Event Thread Op E)) : List E :=
  events.filterMap fun
    | .emitted _ output => some output
    | .locked _ _ | .unlocked _ _ => none

theorem order_append (first rest : List (Event Thread Op E)) :
    order (first ++ rest) = order first ++ order rest :=
  List.filterMap_append

theorem order_emitted (thread : Thread) (emits : List E) :
    order (emits.map fun output => (.emitted thread output : Event Thread Op E)) = [] := by
  simp [order]

theorem outputs_emitted (thread : Thread) (emits : List E) :
    outputs (emits.map fun output => (.emitted thread output : Event Thread Op E)) = emits := by
  induction emits with
  | nil => rfl
  | cons output emits ih => exact congrArg (output :: ·) ih

theorem outputs_append (first rest : List (Event Thread Op E)) :
    outputs (first ++ rest) = outputs first ++ outputs rest :=
  List.filterMap_append

/-- What one operation contributes when no other one comes between. -/
def block (thread : Thread) (operation : Op) (emits : List E) : List (Event Thread Op E) :=
  .locked thread operation :: (emits.map (.emitted thread) ++ [.unlocked thread operation])

theorem outputs_block (thread : Thread) (operation : Op) (emits : List E) :
    outputs (block thread operation emits) = emits := by
  calc outputs (block thread operation emits)
      = outputs (emits.map fun output => (.emitted thread output : Event Thread Op E)) ++ [] :=
        outputs_append (emits.map (.emitted thread)) [.unlocked thread operation]
    _ = emits := by rw [List.append_nil, outputs_emitted]

variable (monitor : Monitor S Op Local E)

/-- What is left of a body, worked through without interruption. -/
def outcome (shared : S) (here : Local) : S × List E :=
  match found : monitor.work shared here with
  | none => (shared, [])
  | some (after, next, output) =>
      have := monitor.shrinks shared here after next output found
      let (final, rest) := outcome after next
      (final, output.toList ++ rest)
termination_by monitor.size shared here

variable {monitor}

theorem outcome_ended {shared : S} {here : Local} (ended : monitor.work shared here = none) :
    monitor.outcome shared here = (shared, []) := by
  rw [outcome]
  split
  · rfl
  · rename_i found
    rw [ended] at found
    cases found

theorem outcome_worked {shared after : S} {here next : Local} {output : Option E}
    (worked : monitor.work shared here = some (after, next, output)) :
    monitor.outcome shared here =
      ((monitor.outcome after next).1, output.toList ++ (monitor.outcome after next).2) := by
  rw [outcome]
  split
  · rename_i found
    rw [worked] at found
    cases found
  · rename_i found
    rw [worked] at found
    cases found
    rfl

variable (monitor)

def perform (shared : S) (operation : Op) : S × List E :=
  monitor.outcome shared (monitor.enter operation)

def performed (shared : S) (operations : List (Thread × Op)) : S :=
  operations.foldl (fun shared operation => (monitor.perform shared operation.2).1) shared

def serial : S → List (Thread × Op) → List (Event Thread Op E)
  | _, [] => []
  | shared, (thread, operation) :: operations =>
      block thread operation (monitor.perform shared operation).2 ++
        serial (monitor.perform shared operation).1 operations

theorem performed_snoc (shared : S) (operations : List (Thread × Op)) (thread : Thread) (operation : Op) :
    monitor.performed shared (operations ++ [(thread, operation)]) =
      (monitor.perform (monitor.performed shared operations) operation).1 := by
  simp [performed]

theorem serial_snoc (shared : S) (operations : List (Thread × Op)) (thread : Thread) (operation : Op) :
    monitor.serial shared (operations ++ [(thread, operation)]) =
      monitor.serial shared operations ++
        block thread operation (monitor.perform (monitor.performed shared operations) operation).2 := by
  induction operations generalizing shared with
  | nil => simp [serial, performed]
  | cons first operations ih =>
      rw [List.cons_append, serial, ih, serial, List.append_assoc]
      rfl

section Step
variable [DecidableEq Thread]

def initial (shared : S) : State Thread S Op Local := ⟨shared, none, ∅⟩

/-- A thread is held up where it waits for the lock, and nowhere else. -/
def step : Step (State Thread S Op Local) (Label Thread Op) (Event Thread Op E)
  | state, .call thread operation =>
      if state.calls.lookup thread |>.isNone then
        some ({ state with calls := state.calls.insert thread (.waiting operation) }, [])
      else none
  | state, .lock thread =>
      match state.mutex, state.calls.lookup thread with
      | none, some (.waiting operation) =>
          some ({ state with
            mutex := some thread
            calls := state.calls.insert thread (.inside operation (monitor.enter operation)) },
            [.locked thread operation])
      | _, _ => none
  | state, .work thread =>
      match state.calls.lookup thread with
      | some (.inside operation here) =>
          (monitor.work state.shared here).map fun (shared, next, output) =>
            ({ state with
              shared := shared
              calls := state.calls.insert thread (.inside operation next) },
              output.toList.map (.emitted thread))
      | _ => none
  | state, .unlock thread =>
      match state.calls.lookup thread with
      | some (.inside operation here) =>
          if monitor.work state.shared here |>.isNone then
            some ({ state with mutex := none, calls := state.calls.erase thread },
              [.unlocked thread operation])
          else none
      | _ => none

inductive Moved (before : State Thread S Op Local) :
    Label Thread Op → State Thread S Op Local → List (Event Thread Op E) → Prop where
  | called {thread : Thread} {operation : Op} (idle : before.calls.lookup thread = none) :
      Moved before (.call thread operation)
        { before with calls := before.calls.insert thread (.waiting operation) } []
  | locked {thread : Thread} {operation : Op} (free : before.mutex = none)
      (waiting : before.calls.lookup thread = some (.waiting operation)) :
      Moved before (.lock thread)
        { before with
          mutex := some thread
          calls := before.calls.insert thread (.inside operation (monitor.enter operation)) }
        [.locked thread operation]
  | worked {thread : Thread} {operation : Op} {here next : Local} {shared : S} {output : Option E}
      (inside : before.calls.lookup thread = some (.inside operation here))
      (found : monitor.work before.shared here = some (shared, next, output)) :
      Moved before (.work thread)
        { before with
          shared := shared
          calls := before.calls.insert thread (.inside operation next) }
        (output.toList.map (.emitted thread))
  | unlocked {thread : Thread} {operation : Op} {here : Local}
      (inside : before.calls.lookup thread = some (.inside operation here))
      (ended : monitor.work before.shared here = none) :
      Moved before (.unlock thread)
        { before with mutex := none, calls := before.calls.erase thread }
        [.unlocked thread operation]

variable {monitor} {before after : State Thread S Op Local} {label : Label Thread Op}
  {events : List (Event Thread Op E)}

theorem step_moved (stepped : monitor.step before label = some (after, events)) :
    monitor.Moved before label after events := by
  cases label with
  | call thread operation =>
      simp only [step, Option.isNone_iff_eq_none, Option.ite_none_right_eq_some, Option.some.injEq,
        Prod.mk.injEq] at stepped
      obtain ⟨idle, rfl, rfl⟩ := stepped
      exact .called idle
  | lock thread =>
      simp only [step] at stepped
      split at stepped
      · rename_i free waiting
        cases stepped
        exact .locked free waiting
      · cases stepped
  | work thread =>
      simp only [step] at stepped
      split at stepped
      · rename_i inside
        rw [Option.map_eq_some_iff] at stepped
        obtain ⟨⟨shared, next, output⟩, found, same⟩ := stepped
        cases same
        exact .worked inside found
      · cases stepped
  | unlock thread =>
      simp only [step] at stepped
      split at stepped
      · rename_i inside
        simp only [Option.isNone_iff_eq_none, Option.ite_none_right_eq_some, Option.some.injEq,
          Prod.mk.injEq] at stepped
        obtain ⟨ended, rfl, rfl⟩ := stepped
        exact .unlocked inside ended
      · cases stepped

theorem events_short (before : State Thread S Op Local) (label : Label Thread Op)
    (after : State Thread S Op Local) (events : List (Event Thread Op E))
    (stepped : monitor.step before label = some (after, events)) : events.length ≤ 1 := by
  cases step_moved stepped with
  | called => exact Nat.zero_le _
  | locked => exact Nat.le_refl _
  | worked inside found =>
      rename_i output
      cases output <;> simp
  | unlocked => exact Nat.le_refl _

/-- Who is inside an operation has the lock. -/
def State.Exclusive (state : State Thread S Op Local) : Prop :=
  ∀ thread operation here, state.calls.lookup thread = some (.inside operation here) →
    state.mutex = some thread

theorem State.Exclusive.moved (exclusive : before.Exclusive)
    (moved : monitor.Moved before label after events) : after.Exclusive := by
  intro other operation here found
  cases moved with
  | called idle =>
      rw [Table.lookup_insert] at found
      split at found
      · cases found
      · exact exclusive _ _ _ found
  | locked free waiting =>
      rw [Table.lookup_insert] at found
      split at found
      · rename_i same
        exact congrArg some same.symm
      · have taken := exclusive _ _ _ found
        rw [free] at taken
        cases taken
  | worked inside =>
      rw [Table.lookup_insert] at found
      split at found
      · rename_i same
        subst same
        exact exclusive _ _ _ inside
      · exact exclusive _ _ _ found
  | unlocked inside =>
      rw [Table.lookup_erase] at found
      split at found
      · cases found
      · rename_i distinct
        have taken := exclusive _ _ _ inside
        rw [exclusive _ _ _ found, Option.some.injEq] at taken
        exact absurd taken distinct

/-- The trace so far, with what the operation inside the lock still owes, is the serial one. -/
inductive Exact (monitor : Monitor S Op Local E) (start : S) (past : List (Event Thread Op E))
    (state : State Thread S Op Local) : Prop where
  | free (unowned : state.mutex = none) (same : past = monitor.serial start (order past))
      (reached : state.shared = monitor.performed start (order past))
  | held {thread : Thread} {operation : Op} {here : Local} {earlier : List (Thread × Op)}
      (inside : state.calls.lookup thread = some (.inside operation here))
      (latest : order past = earlier ++ [(thread, operation)])
      (same : past ++ ((monitor.outcome state.shared here).2.map (.emitted thread) ++
        [.unlocked thread operation]) = monitor.serial start (order past))
      (reached : (monitor.outcome state.shared here).1 = monitor.performed start (order past))

theorem Exact.owner {start : S} {past : List (Event Thread Op E)} {state : State Thread S Op Local}
    (exclusive : state.Exclusive) (exactly : monitor.Exact start past state) {thread : Thread}
    {operation : Op} {here : Local}
    (inside : state.calls.lookup thread = some (.inside operation here)) :
    (∃ earlier, order past = earlier ++ [(thread, operation)]) ∧
      past ++ ((monitor.outcome state.shared here).2.map (.emitted thread) ++
        [.unlocked thread operation]) = monitor.serial start (order past) ∧
      (monitor.outcome state.shared here).1 = monitor.performed start (order past) := by
  have taken := exclusive _ _ _ inside
  cases exactly with
  | free unowned =>
      rw [unowned] at taken
      cases taken
  | held there latest same reached =>
      rw [exclusive _ _ _ there, Option.some.injEq] at taken
      subst taken
      rw [inside] at there
      cases there
      exact ⟨⟨_, latest⟩, same, reached⟩

theorem Exact.moved {start : S} {past : List (Event Thread Op E)} (exclusive : before.Exclusive)
    (exactly : monitor.Exact start past before) (moved : monitor.Moved before label after events) :
    monitor.Exact start (past ++ events) after := by
  cases moved with
  | @called thread operation idle =>
      rw [List.append_nil]
      cases exactly with
      | free unowned same reached => exact .free unowned same reached
      | @held owner _ _ _ inside latest same reached =>
          -- The caller only queues up: the owner of the lock is somebody else.
          refine .held ?_ latest same reached
          have distinct : owner ≠ thread := by
            rintro rfl
            rw [idle] at inside
            cases inside
          rwa [Table.lookup_insert, if_neg distinct]
  | @locked thread operation free waiting =>
      cases exactly with
      | held inside =>
          have taken := exclusive _ _ _ inside
          rw [free] at taken
          cases taken
      | free _ same reached =>
          -- All that the operation will do is owed from here on.
          have latest : order (past ++ [.locked thread operation]) =
              order past ++ [(thread, operation)] := order_append _ _
          refine .held (by rw [Table.lookup_insert, if_pos rfl]) latest ?_ ?_
          · rw [latest, serial_snoc, ← same, ← reached, List.append_assoc]
            rfl
          · rw [latest, performed_snoc, ← reached]
            rfl
  | @worked thread operation here next shared output inside found =>
      obtain ⟨⟨earlier, latest⟩, same, reached⟩ := exactly.owner exclusive inside
      -- One piece of what was owed is done, and the rest stays owed.
      rw [outcome_worked found] at same reached
      have unchanged : order (past ++ output.toList.map (.emitted thread)) = order past := by
        rw [order_append, order_emitted, List.append_nil]
      refine .held (by rw [Table.lookup_insert, if_pos rfl]) (unchanged.trans latest) ?_ ?_
      · rw [unchanged, ← same, List.map_append, List.append_assoc, List.append_assoc]
      · rw [unchanged, ← reached]
  | @unlocked thread operation here inside ended =>
      obtain ⟨_, same, reached⟩ := exactly.owner exclusive inside
      -- Nothing but the release of the lock was owed.
      rw [outcome_ended ended] at same reached
      have unchanged : order (past ++ [.unlocked thread operation]) = order past := by
        rw [order_append]
        exact List.append_nil _
      exact .free rfl (by rw [unchanged]; exact same) (by rw [unchanged]; exact reached)

variable {start : S} {steps : List (Taken (State Thread S Op Local) (Label Thread Op) (Event Thread Op E))}
  {final : State Thread S Op Local}

theorem exact_of_run (run : Run monitor.step (initial start) steps final) :
    final.Exclusive ∧ monitor.Exact start (trace steps) final := by
  refine run.history (fun _ => True)
    (fun past state => state.Exclusive ∧ monitor.Exact start past state) ⟨?_, ?_⟩ ?_ fun _ _ => trivial
  · intro thread operation here found
    cases found
  · exact .free rfl rfl rfl
  · rintro past before label after events ⟨exclusive, exactly⟩ _ stepped
    have moved := step_moved stepped
    exact ⟨exclusive.moved moved, exactly.moved exclusive moved⟩

/-- However the threads are scheduled, the trace is a beginning of the one in which the operations
run one at a time, in the order in which they take the lock. -/
theorem trace_serial (run : Run monitor.step (initial start) steps final) :
    ∃ due, trace steps ++ due = monitor.serial start (order (trace steps)) ∧
      (final.mutex = none → due = []) := by
  obtain ⟨exclusive, exactly⟩ := exact_of_run run
  cases exactly with
  | free _ same => exact ⟨[], (List.append_nil _).trans same, fun _ => rfl⟩
  | held inside _ same =>
      refine ⟨_, same, fun unowned => ?_⟩
      have taken := exclusive _ _ _ inside
      rw [unowned] at taken
      cases taken

theorem unlocked_performed {before after : State Thread S Op Local} {label : Label Thread Op}
    {thread : Thread} {operation : Op} (run : Run monitor.step (initial start) steps before)
    (stepped : monitor.step before label = some (after, [.unlocked thread operation])) :
    (∃ shared, after.shared = (monitor.perform shared operation).1) ∧
      ∀ other operation here, after.calls.lookup other ≠ some (.inside operation here) := by
  obtain ⟨exclusive, exactly⟩ := exact_of_run run
  have moved := step_moved stepped
  generalize unlocking : [Event.unlocked thread operation] = events at moved
  cases moved with
  | called | locked => cases unlocking
  | worked =>
      rename_i output _ _
      cases output <;> cases unlocking
  | unlocked inside ended =>
      cases unlocking
      obtain ⟨⟨earlier, latest⟩, _, reached⟩ := exactly.owner exclusive inside
      rw [outcome_ended ended, latest, performed_snoc] at reached
      refine ⟨⟨_, reached⟩, fun other operation here found => ?_⟩
      have kept := exclusive.moved (step_moved stepped) other operation here found
      cases kept

end Step

end Monitor

end Library
