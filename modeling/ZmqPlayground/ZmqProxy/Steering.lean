import Mathlib.Data.List.Perm.Basic
import ZmqPlayground.ZmqProxy.Control

/-! Both ends of the control socket.

The thread of the proxy reads a command, and to `STATISTICS` it replies with what it has
counted by then. The operations of the other threads ask for it over the one request
socket, which accepts nothing while a reply is outstanding.
-/

set_option autoImplicit false

namespace ZmqPlayground

open Library Library.Runs

/-- The frames in the order in which the proxy sends its counters. -/
def ProxyStats.frames (stats : ProxyStats) : List UInt64 :=
  [stats.frontEndRxMsgs, stats.frontEndRxBytes, stats.frontEndTxMsgs, stats.frontEndTxBytes,
    stats.backEndRxMsgs, stats.backEndRxBytes, stats.backEndTxMsgs, stats.backEndTxBytes]

@[simp] theorem Proxy.stats_frames (stats counters : ProxyStats) :
    Proxy.stats stats (some counters.frames) = counters := rfl

def ProxyStats.AtMost (stats later : ProxyStats) : Prop :=
  ∀ counter, stats.counter counter ≤ later.counter counter

theorem ProxyStats.AtMost.refl (stats : ProxyStats) : stats.AtMost stats := fun _ => UInt64.le_refl _

theorem ProxyStats.AtMost.trans {first second third : ProxyStats} (front : first.AtMost second)
    (back : second.AtMost third) : first.AtMost third :=
  fun counter => UInt64.le_trans (front counter) (back counter)

namespace Proxy

inductive Command where
  | statistics
  | terminate
  deriving DecidableEq

/-- What is under way between the two ends. -/
inductive Link where
  | quiet
  | command (command : Command)
  | frames (frames : List UInt64)
  deriving DecidableEq

inductive Event (Thread : Type) where
  | asked (thread : Thread)
  | answered (counters : ProxyStats)
  /-- The statistics a call returns with. -/
  | told (thread : Thread) (stats : ProxyStats)
  | stopping
  deriving DecidableEq

def Event.isRequest {Thread : Type} : Event Thread → Bool
  | .asked _ | .stopping => true
  | .answered _ | .told _ _ => false

structure Steered (Thread : Type) where
  control : Control Thread
  link : Link
  counters : ProxyStats
  running : Bool

variable {Thread : Type}

/-- A step of the operations, messages that pass through the proxy, or the proxy reading a
command. Only `TERMINATE` takes the acknowledgement, if the proxy sends one. -/
inductive Act (Thread : Type) where
  | operation (label : Label Thread)
  | count (counters : ProxyStats)
  | answer (acknowledgement : Option (List UInt64))
  deriving DecidableEq

namespace Steered

def initial : Steered Thread := ⟨Control.initial, .quiet, .init, true⟩

def Grows (taken : Taken (Steered Thread) (Act Thread) (Event Thread)) : Prop :=
  match taken.label with
  | .count counters => taken.before.counters.AtMost counters
  | .operation _ | .answer _ => True

def round (call : Thread × ProxyStats) : List (Event Thread) :=
  [.asked call.1, .answered call.2, .told call.1 call.2]

def answers (trace : List (Event Thread)) : List ProxyStats :=
  trace.filterMap fun event =>
    match event with
    | .answered counters => some counters
    | .asked _ | .told _ _ | .stopping => none

@[simp] theorem answers_append (first rest : List (Event Thread)) :
    answers (first ++ rest) = answers first ++ answers rest :=
  List.filterMap_append

@[simp] theorem answers_rounds (calls : List (Thread × ProxyStats)) :
    answers (calls.flatMap round) = calls.map (·.2) := by
  induction calls with
  | nil => rfl
  | cons call calls ih =>
      rw [List.flatMap_cons, answers_append, ih]
      rfl

variable [DecidableEq Thread]

/-- What a step of an operation does to the link. The socket sends only while no reply is
outstanding, and it receives what the other end has sent. -/
def exchange (steered : Steered Thread) : Label Thread → Option (Link × List (Event Thread))
  | .send thread =>
      if steered.control.outstanding then some (steered.link, [])
      else if steered.control.pc thread = some .send then
        some (.command .statistics, [.asked thread])
      else some (.command .terminate, [.stopping])
  | .destroy =>
      if steered.control.outstanding then some (steered.link, [])
      else some (.command .terminate, [.stopping])
  | .receive thread (some frames) =>
      if steered.link = .frames frames then
        some (.quiet, [.told thread (Proxy.stats .init (some frames))])
      else none
  | .receive _ none | .call _ _ | .lock _ | .unlock _ => some (steered.link, [])

/-- What the thread of the proxy does with the command it reads. -/
def answer (steered : Steered Thread) (acknowledgement : Option (List UInt64)) :
    Option (Steered Thread × List (Event Thread)) :=
  match steered.link with
  | .command .statistics =>
      some ({ steered with link := .frames steered.counters.frames }, [.answered steered.counters])
  | .command .terminate =>
      let link := match acknowledgement with
        | some frames => .frames frames
        | none => .quiet
      some ({ steered with link, running := false }, [])
  | .quiet | .frames _ => none

def step : Step (Steered Thread) (Act Thread) (Event Thread)
  | steered, .operation label => do
      let (control, _) ← Control.step steered.control label
      let (link, events) ← steered.exchange label
      return ({ steered with control, link }, events)
  | steered, .count counters =>
      if steered.running then some ({ steered with counters }, []) else none
  | steered, .answer acknowledgement =>
      if steered.running then steered.answer acknowledgement else none

inductive Moved (before : Steered Thread) :
    Act Thread → Steered Thread → List (Event Thread) → Prop where
  | operation {label : Label Thread} {control : Control Thread} {requests : List Request} {link : Link}
      {events : List (Event Thread)} (moved : Control.Moved before.control label control requests)
      (exchanged : before.exchange label = some (link, events)) :
      Moved before (.operation label) { before with control, link } events
  | counted {counters : ProxyStats} : Moved before (.count counters) { before with counters } []
  | answered {acknowledgement : Option (List UInt64)} (asked : before.link = .command .statistics) :
      Moved before (.answer acknowledgement) { before with link := .frames before.counters.frames }
        [.answered before.counters]
  | stopped {acknowledgement : Option (List UInt64)} {link : Link}
      (asked : before.link = .command .terminate) :
      Moved before (.answer acknowledgement) { before with link, running := false } []

variable {before after : Steered Thread} {act : Act Thread} {events : List (Event Thread)}

theorem step_moved (stepped : step before act = some (after, events)) :
    Moved before act after events := by
  cases act with
  | operation label =>
      simp only [step, Option.bind_eq_bind, Option.pure_def, Option.bind_eq_some_iff, Prod.exists,
        Option.some.injEq, Prod.mk.injEq] at stepped
      obtain ⟨control, requests, stepped, link, _, exchanged, rfl, rfl⟩ := stepped
      exact .operation (Control.step_moved stepped) exchanged
  | count counters =>
      simp only [step, Option.ite_none_right_eq_some, Option.some.injEq, Prod.mk.injEq] at stepped
      obtain ⟨-, rfl, rfl⟩ := stepped
      exact .counted
  | answer acknowledgement =>
      simp only [step, Option.ite_none_right_eq_some] at stepped
      obtain ⟨-, stepped⟩ := stepped
      unfold answer at stepped
      split at stepped
      · rename_i asked
        cases stepped
        exact .answered asked
      · rename_i asked
        cases stepped
        exact .stopped asked
      · cases stepped
      · cases stepped

/-- Where the exchange stands, by the events since the last complete round. Once nobody reads the
reply that is outstanding, nobody ever will. -/
inductive Phase (steered : Steered Thread) : List (Event Thread) → Prop where
  | free (accepting : steered.control.outstanding = false) (quiet : steered.link = .quiet) :
      Phase steered []
  | asked {thread : Thread} (waits : steered.control.pc thread = some .receive)
      (sent : steered.link = .command .statistics) : Phase steered [.asked thread]
  | answered {thread : Thread} {counters : ProxyStats}
      (waits : steered.control.pc thread = some .receive)
      (replied : steered.link = .frames counters.frames) :
      Phase steered [.asked thread, .answered counters]
  | stuck {events : List (Event Thread)} (outstanding : steered.control.outstanding = true)
      (unread : ∀ thread, steered.control.pc thread ≠ some .receive)
      (untold : ∀ thread stats, .told thread stats ∉ events)
      (one : events.countP Event.isRequest ≤ 1) : Phase steered events

/-- The trace is made of complete rounds and of what has happened since the last of them. -/
def Rounds (trace : List (Event Thread)) (steered : Steered Thread) : Prop :=
  ∃ (calls : List (Thread × ProxyStats)) (rest : List (Event Thread)),
    trace = calls.flatMap round ++ rest ∧ Phase steered rest

theorem Phase.untold {steered : Steered Thread} {rest : List (Event Thread)} (phase : Phase steered rest)
    (thread : Thread) (stats : ProxyStats) : .told thread stats ∉ rest := by
  cases phase with
  | free | asked | answered => simp
  | stuck _ _ untold => exact untold thread stats

theorem Phase.one {steered : Steered Thread} {rest : List (Event Thread)} (phase : Phase steered rest) :
    rest.countP Event.isRequest ≤ 1 := by
  cases phase with
  | free => exact Nat.zero_le 1
  | asked | answered => exact Nat.le_refl 1
  | stuck _ _ _ one => exact one

theorem Phase.of_still {rest : List (Event Thread)} (phase : Phase before rest)
    (same : after.control.outstanding = before.control.outstanding)
    (waiting : ∀ thread, after.control.pc thread = some .receive ↔
      before.control.pc thread = some .receive)
    (link : after.link = before.link) : Phase after rest := by
  -- Who waits for a reply goes on to, and the link stays, unless it is the one who moves.
  cases phase with
  | free accepting quiet => exact .free (same.trans accepting) (link.trans quiet)
  | asked waits sent => exact .asked ((waiting _).mpr waits) (link.trans sent)
  | answered waits replied => exact .answered ((waiting _).mpr waits) (link.trans replied)
  | stuck outstanding unread untold one =>
      exact .stuck (same.trans outstanding) (fun thread there => unread thread ((waiting thread).mp there))
        untold one

theorem Phase.of_accepting {rest : List (Event Thread)} (phase : Phase before rest)
    (held : Control.Held before.control) (accepting : before.control.outstanding = false) :
    rest = [] := by
  cases phase with
  | free => rfl
  | asked waits | answered waits =>
      rw [held.asked _ waits] at accepting
      cases accepting
  | stuck outstanding =>
      rw [outstanding] at accepting
      cases accepting

/-- Who waits for a reply is the one who has asked since the last round. -/
theorem Phase.of_waiting {rest : List (Event Thread)} (phase : Phase before rest)
    (held : Control.Held before.control) {thread : Thread}
    (here : before.control.pc thread = some .receive) :
    (rest = [.asked thread] ∧ before.link = .command .statistics) ∨
      ∃ counters, rest = [.asked thread, .answered counters] ∧ before.link = .frames counters.frames := by
  cases phase with
  | free accepting =>
      rw [held.asked _ here] at accepting
      cases accepting
  | asked waits sent =>
      obtain rfl := held.eq_of_locked waits rfl here rfl
      exact .inl ⟨rfl, sent⟩
  | @answered _ counters waits replied =>
      obtain rfl := held.eq_of_locked waits rfl here rfl
      exact .inr ⟨counters, rfl, replied⟩
  | stuck _ unread => exact absurd here (unread thread)

theorem Rounds.sent {trace : List (Event Thread)} (rounds : Rounds trace before)
    (held : Control.Held before.control) {thread : Thread} (accepting : before.control.outstanding = false)
    (waits : after.control.pc thread = some .receive) (sent : after.link = .command .statistics) :
    Rounds (trace ++ [.asked thread]) after := by
  obtain ⟨calls, rest, rfl, phase⟩ := rounds
  obtain rfl := phase.of_accepting held accepting
  exact ⟨calls, [.asked thread], by simp, .asked waits sent⟩

theorem Rounds.stopping {trace : List (Event Thread)} (rounds : Rounds trace before)
    (held : Control.Held before.control) (accepting : before.control.outstanding = false)
    (outstanding : after.control.outstanding = true)
    (waiting : ∀ thread, after.control.pc thread = some .receive →
      before.control.pc thread = some .receive) :
    Rounds (trace ++ [.stopping]) after := by
  obtain ⟨calls, rest, rfl, phase⟩ := rounds
  obtain rfl := phase.of_accepting held accepting
  refine ⟨calls, [.stopping], by simp, .stuck outstanding (fun thread there => ?_) (by simp)
    (by simp [Event.isRequest])⟩
  have asked := held.asked thread (waiting thread there)
  rw [accepting] at asked
  cases asked

theorem Rounds.told {trace : List (Event Thread)} (rounds : Rounds trace before)
    (held : Control.Held before.control) {thread : Thread} {frames : List UInt64}
    (here : before.control.pc thread = some .receive) (replied : before.link = .frames frames)
    (accepting : after.control.outstanding = false) (quiet : after.link = .quiet) :
    Rounds (trace ++ [.told thread (Proxy.stats .init (some frames))]) after := by
  obtain ⟨calls, rest, rfl, phase⟩ := rounds
  rcases phase.of_waiting held here with ⟨-, sent⟩ | ⟨counters, rfl, sent⟩
  · rw [replied] at sent
    cases sent
  · obtain rfl : frames = counters.frames := by simpa [replied] using sent
    exact ⟨calls ++ [(thread, counters)], [], by simp [round], .free accepting quiet⟩

theorem Rounds.unread {trace : List (Event Thread)} (rounds : Rounds trace before)
    (held : Control.Held before.control) {thread : Thread}
    (here : before.control.pc thread = some .receive) (outstanding : after.control.outstanding = true)
    (waiting : ∀ other, other ≠ thread → after.control.pc other = some .receive →
      before.control.pc other = some .receive)
    (left : after.control.pc thread ≠ some .receive) : Rounds trace after := by
  obtain ⟨calls, rest, rfl, phase⟩ := rounds
  refine ⟨calls, rest, rfl, .stuck outstanding (fun other there => ?_) phase.untold phase.one⟩
  by_cases same : other = thread
  · exact left (same ▸ there)
  · exact same (held.eq_of_locked (waiting other same there) rfl here rfl)

theorem Rounds.of_still {trace : List (Event Thread)} (rounds : Rounds trace before)
    (same : after.control.outstanding = before.control.outstanding)
    (waiting : ∀ thread, after.control.pc thread = some .receive ↔
      before.control.pc thread = some .receive)
    (link : after.link = before.link) : Rounds trace after := by
  obtain ⟨calls, rest, rfl, phase⟩ := rounds
  exact ⟨calls, rest, rfl, phase.of_still same waiting link⟩

theorem Rounds.answered {trace : List (Event Thread)} (rounds : Rounds trace before)
    (asked : before.link = .command .statistics) :
    Rounds (trace ++ [.answered before.counters])
      { before with link := .frames before.counters.frames } := by
  obtain ⟨calls, rest, rfl, phase⟩ := rounds
  cases phase with
  | free _ quiet =>
      rw [asked] at quiet
      cases quiet
  | @asked thread waits =>
      exact ⟨calls, [.asked thread, .answered before.counters], by simp, .answered waits rfl⟩
  | answered _ replied =>
      rw [asked] at replied
      cases replied
  | stuck outstanding unread untold one =>
      refine ⟨calls, rest ++ [.answered before.counters], by simp, .stuck outstanding unread ?_ ?_⟩
      · simpa using untold
      · simpa [Event.isRequest] using one

theorem Rounds.stopped {trace : List (Event Thread)} (rounds : Rounds trace before) {link : Link}
    (asked : before.link = .command .terminate) :
    Rounds trace { before with link, running := false } := by
  obtain ⟨calls, rest, rfl, phase⟩ := rounds
  cases phase with
  | free _ quiet =>
      rw [asked] at quiet
      cases quiet
  | asked _ sent =>
      rw [asked] at sent
      cases sent
  | answered _ replied =>
      rw [asked] at replied
      cases replied
  | stuck outstanding unread untold one =>
      exact ⟨calls, rest, rfl, .stuck outstanding unread untold one⟩

theorem Rounds.operation {trace : List (Event Thread)} (rounds : Rounds trace before)
    (held : Control.Held before.control) {label : Label Thread} {control : Control Thread}
    {requests : List Request} {link : Link} (moved : Control.Moved before.control label control requests)
    (exchanged : before.exchange label = some (link, events)) :
    Rounds (trace ++ events) { before with control, link } := by
  cases moved with
  | @called thread operation here =>
      cases exchanged
      rw [List.append_nil]
      refine rounds.of_still rfl (fun other => ?_) rfl
      rw [Control.pc_goto]
      split
      · rename_i same
        rw [same, here]
        cases operation <;> simp [Operation.entry]
      · rfl
  | @locked thread here =>
      cases exchanged
      rw [List.append_nil]
      refine rounds.of_still rfl (fun other => ?_) rfl
      rw [Control.pc_goto, Control.pc_setMutex]
      split
      · rename_i same
        simp [same, here]
      · rfl
  | @sent thread here =>
      simp only [exchange, here, if_true] at exchanged
      cases outstanding : before.control.outstanding with
      | false =>
          simp only [outstanding, Bool.false_eq_true, if_false, Option.some.injEq,
            Prod.mk.injEq] at exchanged
          obtain ⟨rfl, rfl⟩ := exchanged
          exact rounds.sent held outstanding (by simp) rfl
      | true =>
          -- `send` throws, and the thread leaves the body of `Stats`.
          simp only [outstanding, if_true, Option.some.injEq, Prod.mk.injEq] at exchanged
          obtain ⟨rfl, rfl⟩ := exchanged
          rw [List.append_nil]
          refine rounds.of_still outstanding.symm (fun other => ?_) rfl
          rw [if_pos rfl, Control.pc_goto, Control.pc_request]
          split
          · rename_i same
            simp [same, here]
          · rfl
  | @stopped thread here =>
      have waiting : ∀ other, (before.control.request.leave thread).pc other = some .receive ↔
          before.control.pc other = some .receive := by
        intro other
        rw [Control.pc_leave, Control.pc_request]
        split
        · rename_i same
          simp [same, here]
        · rfl
      simp only [exchange, here, Option.some.injEq, reduceCtorEq, if_false] at exchanged
      cases outstanding : before.control.outstanding with
      | false =>
          simp only [outstanding, Bool.false_eq_true, if_false, Option.some.injEq,
            Prod.mk.injEq] at exchanged
          obtain ⟨rfl, rfl⟩ := exchanged
          exact rounds.stopping held outstanding rfl fun other => (waiting other).mp
      | true =>
          simp only [outstanding, if_true, Option.some.injEq, Prod.mk.injEq] at exchanged
          obtain ⟨rfl, rfl⟩ := exchanged
          rw [List.append_nil]
          exact rounds.of_still outstanding.symm waiting rfl
  | @received thread received here =>
      cases received with
      | none =>
          cases exchanged
          rw [List.append_nil]
          refine rounds.unread held here ?_ (fun other distinct there => ?_) (by simp)
          · simp [Control.reply, held.asked thread here]
          · simpa [distinct] using there
      | some frames =>
          simp only [exchange, Option.ite_none_right_eq_some, Option.some.injEq,
            Prod.mk.injEq] at exchanged
          obtain ⟨replied, rfl, rfl⟩ := exchanged
          exact rounds.told held here replied (by simp [Control.reply]) rfl
  | @unlocked thread here =>
      cases exchanged
      rw [List.append_nil]
      refine rounds.of_still rfl (fun other => ?_) rfl
      rw [Control.pc_leave, Control.pc_setMutex]
      split
      · rename_i same
        simp [same, here]
      · rfl
  | destroyed idle =>
      have nobody : ∀ other, before.control.pc other ≠ some .receive := by
        intro other
        simp [Control.pc_of_idle _ _ idle]
      simp only [exchange] at exchanged
      cases outstanding : before.control.outstanding with
      | false =>
          simp only [outstanding, Bool.false_eq_true, if_false, Option.some.injEq,
            Prod.mk.injEq] at exchanged
          obtain ⟨rfl, rfl⟩ := exchanged
          exact rounds.stopping held outstanding rfl fun other there => there
      | true =>
          simp only [outstanding, if_true, Option.some.injEq, Prod.mk.injEq] at exchanged
          obtain ⟨rfl, rfl⟩ := exchanged
          rw [List.append_nil]
          exact rounds.of_still outstanding.symm (fun other => Iff.rfl) rfl

theorem Rounds.moved {trace : List (Event Thread)} (rounds : Rounds trace before)
    (held : Control.Held before.control) (moved : Moved before act after events) :
    Rounds (trace ++ events) after := by
  cases moved with
  | operation moved exchanged => exact rounds.operation held moved exchanged
  | counted =>
      rw [List.append_nil]
      exact rounds.of_still rfl (fun _ => Iff.rfl) rfl
  | answered asked => exact rounds.answered asked
  | stopped asked =>
      rw [List.append_nil]
      exact rounds.stopped asked

theorem held_moved (held : Control.Held before.control) (moved : Moved before act after events) :
    Control.Held after.control := by
  cases moved with
  | operation moved => exact held.moved moved
  | counted | answered | stopped => exact held

theorem held_rounds {final : Steered Thread} {steps} (run : Run step initial steps final) :
    Control.Held final.control ∧ Rounds (trace steps) final := by
  refine run.history (fun _ => True)
    (fun past steered => Control.Held steered.control ∧ Rounds past steered)
    ⟨.initial, [], [], rfl, .free rfl rfl⟩ ?_ fun _ _ => trivial
  rintro past before act after events ⟨held, rounds⟩ - stepped
  have moved := step_moved stepped
  exact ⟨held_moved held moved, rounds.moved held moved⟩

theorem answers_exchange {label : Label Thread} {link : Link}
    (exchanged : before.exchange label = some (link, events)) : answers events = [] := by
  unfold exchange at exchanged
  split at exchanged
  · split at exchanged
    · cases exchanged
      rfl
    · split at exchanged <;> cases exchanged <;> rfl
  · split at exchanged <;> cases exchanged <;> rfl
  · split at exchanged <;> cases exchanged
    rfl
  all_goals
    cases exchanged
    rfl

theorem answers_grow {final : Steered Thread} {steps} (run : Run step initial steps final)
    (grows : ∀ taken ∈ steps, Grows taken) :
    (answers (trace steps)).Pairwise ProxyStats.AtMost ∧
      ∀ counters ∈ answers (trace steps), counters.AtMost final.counters := by
  refine run.history Grows
    (fun past steered => (answers past).Pairwise ProxyStats.AtMost ∧
      ∀ counters ∈ answers past, counters.AtMost steered.counters)
    (by simp [answers]) ?_ grows
  rintro past before act after events ⟨sorted, below⟩ grows stepped
  rw [answers_append]
  cases step_moved stepped with
  | operation moved exchanged =>
      rw [answers_exchange exchanged, List.append_nil]
      exact ⟨sorted, below⟩
  | counted =>
      rw [show answers ([] : List (Event Thread)) = [] from rfl, List.append_nil]
      exact ⟨sorted, fun counters member => (below counters member).trans grows⟩
  | answered asked =>
      rw [show answers [(.answered before.counters : Event Thread)] = [before.counters] from rfl]
      refine ⟨?_, ?_⟩
      · rw [List.pairwise_append]
        refine ⟨sorted, List.pairwise_singleton _ _, fun counters member last here => ?_⟩
        obtain rfl := List.mem_singleton.mp here
        exact below counters member
      · intro counters member
        rcases List.mem_append.mp member with member | here
        · exact below counters member
        · obtain rfl := List.mem_singleton.mp here
          exact .refl _
  | stopped =>
      rw [show answers ([] : List (Event Thread)) = [] from rfl, List.append_nil]
      exact ⟨sorted, below⟩

/-- The calls that are told anything ask, are answered and are told one after the other, each what
the proxy had counted between its own request and its own reply. At most one request is accepted
after the last of them, and none while the socket is free to be asked. -/
theorem told_in_rounds {final : Steered Thread} {steps} (run : Run step initial steps final) :
    ∃ (calls : List (Thread × ProxyStats)) (rest : List (Event Thread)),
      trace steps = calls.flatMap round ++ rest ∧ (∀ thread stats, .told thread stats ∉ rest) ∧
        rest.countP Event.isRequest ≤ 1 ∧ (final.control.outstanding = false → rest = []) ∧
        ((∀ taken ∈ steps, Grows taken) → (calls.map (·.2)).Pairwise ProxyStats.AtMost) := by
  obtain ⟨held, calls, rest, same, phase⟩ := held_rounds run
  refine ⟨calls, rest, same, phase.untold, phase.one, phase.of_accepting held, fun grows => ?_⟩
  have sorted := (answers_grow run grows).1
  rw [same, answers_append, answers_rounds] at sorted
  exact (List.pairwise_append.mp sorted).1

/-- Two calls take turns, and the `Stop` of a third thread ends it. -/
theorem told_in_rounds_stopped : ∃ (steps : _) (final : Steered ℕ), Run step initial steps final ∧
    (trace steps).length = 7 ∧ final.running = false ∧
    ∃ (calls : List (ℕ × ProxyStats)) (rest : List (Event ℕ)),
      trace steps = calls.flatMap round ++ rest ∧ (∀ thread stats, .told thread stats ∉ rest) ∧
        rest.countP Event.isRequest ≤ 1 ∧ (final.control.outstanding = false → rest = []) ∧
        ((∀ taken ∈ steps, Grows taken) → (calls.map (·.2)).Pairwise ProxyStats.AtMost) := by
  have computed : (exec step (initial : Steered ℕ) [.operation (.call 0 .stats),
      .operation (.call 1 .status), .operation (.lock 1), .operation (.send 1),
      .count ⟨1, 5, 0, 0, 0, 0, 1, 5⟩, .answer none,
      .operation (.receive 1 (some [1, 5, 0, 0, 0, 0, 1, 5])), .operation (.unlock 1),
      .operation (.lock 0), .operation (.send 0), .count ⟨2, 9, 0, 0, 0, 0, 2, 9⟩, .answer none,
      .operation (.receive 0 (some [2, 9, 0, 0, 0, 0, 2, 9])), .operation (.call 2 .stop),
      .operation (.unlock 0), .operation (.send 2), .answer none]).any (fun (steps, final) =>
        (trace steps).length == 7 && !final.running) = true := by
    decide +kernel
  obtain ⟨steps, final, run, computed⟩ := exists_run_of_exec computed
  simp only [Bool.and_eq_true, beq_iff_eq, Bool.not_eq_true'] at computed
  exact ⟨steps, final, run, computed.1, computed.2, told_in_rounds run⟩

end Steered

end Proxy

end ZmqPlayground
