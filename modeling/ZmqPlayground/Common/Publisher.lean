import ZmqPlayground.Common.ZmqStack
import ZmqPlayground.Library.Framing

/-! The PUB socket of a stack, and the threads that publish on it.

A publication is a frame with the topic and one with the payload, sent one after the
other. `Publish` takes no lock, so between the two another thread may send its own.
-/

set_option autoImplicit false

namespace ZmqPlayground

open Library
open Library.Runs
open Library.Framing

namespace Publisher

inductive Publish where
  | one (topic msg : Str)
  | many (topics : List Str) (msg : Str)
  deriving DecidableEq

def Publish.messages : Publish → List Message
  | .one topic msg => [.publication topic msg]
  | .many topics msg => ZmqStack.publish topics msg

inductive Label (T : Type) where
  | publish (thread : T) (call : Publish)
  /-- The next frame of the call that the thread is in. -/
  | send (thread : T)

abbrev PubSocket (T : Type) := Wire T Str

variable {T : Type}

def Label.onWire : Label T → Framing.Label T Str
  | .publish thread call => .begins thread (call.messages.map Message.frames)
  | .send thread => .sends thread

def Label.asks : Label T → List (T × Message)
  | .publish thread call => call.messages.map fun msgs => (thread, msgs)
  | .send _ => []

def asked (steps : List (Taken (PubSocket T) (Label T) (T × List Str))) : List (T × List Str) :=
  (steps.flatMap fun taken => taken.label.asks).map (Prod.map id Message.frames)

variable [DecidableEq T]

def step : Step (PubSocket T) (Label T) (T × List Str) := fun socket label =>
  Framing.step socket label.onWire

/-- A frame is sent between the topic and the payload of another thread's publication. -/
def Interrupts (taken : Taken (PubSocket T) (Label T) (T × List Str)) : Prop :=
  match taken.label with
  | .send thread => ∃ other, other ≠ thread ∧ taken.before.within other = true
  | .publish _ _ => False

/-- A call is made while another thread is in one. -/
def Overlaps (taken : Taken (PubSocket T) (Label T) (T × List Str)) : Prop :=
  match taken.label with
  | .publish thread _ => ∃ other, other ≠ thread ∧ taken.before.pending other ≠ []
  | .send _ => False

variable {steps : List (Taken (PubSocket T) (Label T) (T × List Str))} {final : PubSocket T}

theorem run_onWire (run : Run step initial steps final) :
    Run Framing.step initial (steps.map (Taken.relabel Label.onWire)) final :=
  run.relabel fun _ _ => rfl

omit [DecidableEq T] in
theorem intrudes_iff (taken : Taken (PubSocket T) (Label T) (T × List Str)) :
    Intrudes (taken.relabel Label.onWire) ↔ Interrupts taken := by
  obtain ⟨before, label, events⟩ := taken
  cases label <;> exact Iff.rfl

theorem asked_eq_trace (run : Run step initial steps final) : asked steps = trace steps := by
  induction run with
  | nil => rfl
  | @snoc steps before after label events _ stepped ih =>
      rw [trace_append, trace_singleton, ← ih, asked, asked, List.flatMap_append, List.map_append,
        List.flatMap_singleton]
      congr 1
      cases label with
      | publish thread call =>
          simp only [step, Label.onWire, Framing.step] at stepped
          split at stepped <;> cases stepped
          simp [Label.asks]
      | send thread =>
          simp only [step, Label.onWire, Framing.step] at stepped
          split at stepped <;> cases stepped
          rfl

omit [DecidableEq T] in
theorem asked_nonempty {message : T × List Str} (member : message ∈ asked steps) : message.2 ≠ [] := by
  obtain ⟨item, -, rfl⟩ := List.mem_map.mp member
  exact item.2.nonempty

/-- In every interleaving of calls of `Publish`, the two frames of each publication are adjacent exactly if
no thread sends a frame between those of another one; and when the calls have returned, each topic asked
for has got its message and is received with it, exactly in the same case. -/
theorem publications_grouped_iff (run : Run step initial steps final) :
    (Adjacent final.sent ↔ ∀ taken ∈ steps, ¬ Interrupts taken) ∧
      ((∀ thread, final.pending thread = []) →
        (Grouped (asked steps) final.sent ↔ ∀ taken ∈ steps, ¬ Interrupts taken)) := by
  have wired := run_onWire run
  have same : (∀ taken ∈ steps.map (Taken.relabel Label.onWire), ¬ Intrudes taken) ↔
      ∀ taken ∈ steps, ¬ Interrupts taken := by
    simp only [List.forall_mem_map, intrudes_iff]
  rw [← same]
  refine ⟨(run_adjacent_iff wired).2, fun returned => ?_⟩
  have requested : trace (steps.map (Taken.relabel Label.onWire)) = asked steps := by
    rw [trace_relabel, asked_eq_trace run]
  rw [← requested]
  apply run_grouped_iff wired _ returned
  rw [requested]
  exact fun message => asked_nonempty

/-- Calls made under one lock, as those of `ConvStack::onReceivedMessage` are, do not interrupt each
other. -/
theorem publications_grouped_of_locked (run : Run step initial steps final)
    (locked : ∀ taken ∈ steps, ¬ Overlaps taken) (returned : ∀ thread, final.pending thread = []) :
    Grouped (asked steps) final.sent := by
  apply ((publications_grouped_iff run).2 returned).mpr
  have waits : ∀ taken ∈ steps.map (Taken.relabel Label.onWire), Waits taken := by
    rw [List.forall_mem_map]
    intro taken member
    have alone := locked taken member
    obtain ⟨before, label, events⟩ := taken
    cases label with
    | publish thread call => simpa [Overlaps, Waits, Taken.relabel, Label.onWire] using alone
    | send => trivial
  intro taken member interrupts
  exact run_waiting (run_onWire run) waits _ (List.mem_map_of_mem member) ((intrudes_iff taken).mpr interrupts)

inductive StackThread where
  | server
  | main
  deriving DecidableEq

def bothPublish (schedule : List StackThread) : List (Label StackThread) :=
  [.publish .server (.many ["net-a-ingress".toList] "data".toList),
    .publish .main (.one "group".toList "hello".toList)] ++ schedule.map .send

/-- The main thread publishes after the server thread has sent both frames. -/
theorem publications_grouped_iff_turns : ∃ steps final, Run step (initial : PubSocket StackThread) steps final ∧
    asked steps = [(.server, ["net-a-ingress".toList, "data".toList]), (.main, ["group".toList, "hello".toList])] ∧
      Grouped (asked steps) final.sent := by
  have computed : (exec step (initial : PubSocket StackThread) (bothPublish [.server, .server, .main, .main])).any
      (fun (steps, final) =>
        decide (asked steps = [(.server, ["net-a-ingress".toList, "data".toList]),
          (.main, ["group".toList, "hello".toList])]) &&
        decide (final.pending .server = []) && decide (final.pending .main = []) &&
        decide (Adjacent final.sent)) = true := by
    decide +kernel
  obtain ⟨steps, final, run, checked⟩ := exists_run_of_exec computed
  simp only [Bool.and_eq_true, decide_eq_true_eq] at checked
  obtain ⟨⟨⟨same, server⟩, main⟩, adjacent⟩ := checked
  have both := publications_grouped_iff run
  refine ⟨steps, final, run, same, (both.2 ?_).mpr (both.1.mp adjacent)⟩
  intro thread
  cases thread with
  | server => exact server
  | main => exact main

/-- The main thread publishes between the two frames of the server thread: its payload goes out under
no topic of its own, and the other thread's topic gets it. -/
theorem payload_misplaced : ∃ steps final, Run step (initial : PubSocket StackThread) steps final ∧
    (∀ thread, final.pending thread = []) ∧ ¬ Grouped (asked steps) final.sent ∧
    (assemble [] (final.sent.map Prod.snd)).1 =
      [["net-a-ingress".toList, "group".toList, "hello".toList], ["data".toList]] := by
  have computed : (exec step (initial : PubSocket StackThread) (bothPublish [.server, .main, .main, .server])).any
      (fun (_, final) =>
        decide (final.pending .server = []) && decide (final.pending .main = []) &&
        decide (¬ Adjacent final.sent) && decide ((assemble [] (final.sent.map Prod.snd)).1 =
          [["net-a-ingress".toList, "group".toList, "hello".toList], ["data".toList]])) = true := by
    decide +kernel
  obtain ⟨steps, final, run, checked⟩ := exists_run_of_exec computed
  simp only [Bool.and_eq_true, decide_eq_true_eq] at checked
  obtain ⟨⟨⟨server, main⟩, apart⟩, received⟩ := checked
  refine ⟨steps, final, run, fun thread => ?_, ?_, received⟩
  · cases thread with
    | server => exact server
    | main => exact main
  · rintro ⟨done, sent, -⟩
    exact apart (sent ▸ adjacent_whole done)

end Publisher

end ZmqPlayground
