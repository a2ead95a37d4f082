import Mathlib.Algebra.Group.Nat.Defs
import Mathlib.Logic.Function.Basic
import ZmqPlayground.Common.ZmqStack

/-! Liveness probes of the stacks of one process.

`ZmqStack::Health` remembers the count it saw in a function-local static, which
all stacks of the process share. A probe therefore compares the count of its
stack with the one the latest probe of any stack saw.
-/

set_option autoImplicit false

namespace ZmqPlayground

open Library Library.Runs Subscriber

/-- `ZmqStack::Health` on the count it reads: the status and the new `lastCount`. -/
def ZmqStack.health (lastCount count : UInt32) : Nat × UInt32 :=
  (if lastCount ≠ count then 0 else 1, count)

/-- The receive loops of the stacks of a process and the static they share. -/
structure Process (Stack : Type) where
  lastCount : UInt32
  loops : Stack → Loop

namespace Process

variable {Stack : Type} [DecidableEq Stack]

def initial : Process Stack := ⟨0, fun _ => .initial⟩

inductive Label (Stack : Type) where
  | turn (stack : Stack) (turn : Turn)
  | stop (stack : Stack)
  | health (stack : Stack)

structure Probed (Stack : Type) where
  stack : Stack
  status : Nat
  deriving DecidableEq

def setLoop (process : Process Stack) (stack : Stack) (loop : Loop) : Process Stack :=
  { process with loops := Function.update process.loops stack loop }

/-- Turns of the loops and calls to `Health`, one at a time. A loop that has left its `while` takes
no further turn. -/
def step : Step (Process Stack) (Label Stack) (Probed Stack)
  | process, .turn stack turn =>
      if (process.loops stack).running then
        some (process.setLoop stack ((process.loops stack).turn turn), [])
      else none
  | process, .stop stack =>
      some (process.setLoop stack { process.loops stack with running := false }, [])
  | process, .health stack =>
      let (status, lastCount) := ZmqStack.health process.lastCount (process.loops stack).count
      some ({ process with lastCount := lastCount }, [⟨stack, status⟩])

def turnOf (stack : Stack) : Label Stack → Option Turn
  | .turn other turn => if other = stack then some turn else none
  | .stop _ | .health _ => none

def turns (stack : Stack) (steps : List (Taken (Process Stack) (Label Stack) (Probed Stack))) :
    List Turn :=
  steps.filterMap (turnOf stack ·.label)

/-- The turn reaches the increment of `m_count` at the end of the loop. -/
def Counting : Turn → Bool
  | .timeout => true
  | .message msgs throws => kind msgs.first = .application && !throws
  | .failed => false

theorem turn_count (loop : Loop) (turn : Turn) :
    (loop.turn turn).count.toNat = (loop.count.toNat + [turn].countP Counting) % 2 ^ 32 := by
  cases turn with
  | timeout => simp [Loop.turn, Counting]
  | failed => simp [Loop.turn, Counting]
  | message msgs throws =>
      cases found : kind msgs.first with
      | welcome => simp [Loop.turn, Counting, found]
      | ctrl => simp [Loop.turn, Counting, found]
      | application =>
          cases throws with
          | false => simp [Loop.turn, Counting, found]
          | true => simp [Loop.turn, Counting, found]

theorem step_count {before after : Process Stack} {label : Label Stack} {events}
    (stepped : step before label = some (after, events)) (unprobed : ∀ other, label ≠ .health other)
    (stack : Stack) :
    after.lastCount = before.lastCount ∧
      (after.loops stack).count.toNat =
        ((before.loops stack).count.toNat + (turnOf stack label).toList.countP Counting) % 2 ^ 32 := by
  cases label with
  | health other => exact absurd rfl (unprobed other)
  | stop other =>
      simp only [step, Option.some.injEq, Prod.mk.injEq] at stepped
      obtain ⟨rfl, rfl⟩ := stepped
      refine ⟨rfl, ?_⟩
      by_cases same : stack = other
      · subst same
        simp [setLoop, turnOf]
      · simp [setLoop, turnOf, same]
  | turn other turn =>
      simp only [step] at stepped
      split at stepped
      · simp only [Option.some.injEq, Prod.mk.injEq] at stepped
        obtain ⟨rfl, rfl⟩ := stepped
        refine ⟨rfl, ?_⟩
        by_cases same : other = stack
        · subst same
          simpa only [setLoop, turnOf, if_pos, Option.toList_some, Function.update_self] using
            turn_count (before.loops other) turn
        · simp [setLoop, turnOf, same, Function.update_of_ne (Ne.symm same)]
      · cases stepped

theorem run_count {start final : Process Stack} {steps} (run : Run step start steps final)
    (unprobed : ∀ taken ∈ steps, ∀ other, taken.label ≠ .health other) (stack : Stack) :
    final.lastCount = start.lastCount ∧
      (final.loops stack).count.toNat =
        ((start.loops stack).count.toNat + (turns stack steps).countP Counting) % 2 ^ 32 := by
  induction run with
  | nil =>
      have bound := (start.loops stack).count.toNat_lt
      exact ⟨rfl, (Nat.mod_eq_of_lt bound).symm⟩
  | @snoc steps before after label events _ stepped ih =>
      have earlier := ih fun taken member => unprobed taken (by simp [member])
      have last := step_count stepped (unprobed ⟨before, label, events⟩ (by simp)) stack
      have split : turns stack (steps ++ [⟨before, label, events⟩]) =
          turns stack steps ++ (turnOf stack label).toList := by
        rw [turns, List.filterMap_append]
        cases found : turnOf stack label <;> simp [turns, found]
      rw [split, List.countP_append]
      exact ⟨last.1.trans earlier.1, by omega⟩

theorem counting_iff (turn : Turn) :
    Counting turn = true ↔ turn = .timeout ∨
      ∃ msgs, turn = .message msgs false ∧ kind msgs.first = .application := by
  cases turn with
  | timeout => simp [Counting]
  | failed => simp [Counting]
  | message msgs throws =>
      cases throws with
      | false => simp [Counting]
      | true => simp [Counting]

theorem counting_completes {turn : Turn} (counting : Counting turn = true) :
    turn.completes = true := by
  rcases (counting_iff turn).mp counting with rfl | ⟨msgs, rfl, _⟩
  · rfl
  · simp [Turn.completes]

/-- The second of two consecutive probes of one stack sees the increments between them. -/
theorem second_probe {before first second after : Process Unit} {between} {status₁ status₂ : Nat}
    (probe₁ : step before (.health ()) = some (first, [⟨(), status₁⟩]))
    (run : Run step first between second)
    (consecutive : ∀ taken ∈ between, ∀ stack, taken.label ≠ .health stack)
    (few : (turns () between).length < 2 ^ 32)
    (probe₂ : step second (.health ()) = some (after, [⟨(), status₂⟩])) :
    status₂ = 0 ↔ ∃ turn ∈ turns () between, Counting turn = true := by
  have remembered : first.lastCount = (first.loops ()).count := by
    simp only [step, ZmqStack.health, Option.some.injEq, Prod.mk.injEq] at probe₁
    exact probe₁.1 ▸ rfl
  obtain ⟨kept, counted⟩ := run_count run consecutive ()
  have status : (if second.lastCount ≠ (second.loops ()).count then 0 else 1) = status₂ := by
    simp only [step, ZmqStack.health, Option.some.injEq, Prod.mk.injEq, List.cons.injEq,
      Probed.mk.injEq, and_true, true_and] at probe₂
    exact probe₂.2
  have bounded : (turns () between).countP Counting < 2 ^ 32 :=
    Nat.lt_of_le_of_lt List.countP_le_length few
  have start := (first.loops ()).count.toNat_lt
  -- Fewer than 2^32 increments cannot bring the count back to where it was.
  have moved : second.lastCount ≠ (second.loops ()).count ↔
      0 < (turns () between).countP Counting := by
    rw [kept, remembered, ne_eq, ← UInt32.toNat_inj, counted]
    omega
  rw [← status, ← List.countP_pos_iff, ← moved]
  split <;> simp_all

/-- The second of two consecutive probes reports the loop alive just when some turn completed in
between, exactly if the turns that completed were not all welcome or control messages. -/
theorem health_exact_iff {before first second after : Process Unit} {between} {status₁ status₂ : Nat}
    (probe₁ : step before (.health ()) = some (first, [⟨(), status₁⟩]))
    (run : Run step first between second)
    (consecutive : ∀ taken ∈ between, ∀ stack, taken.label ≠ .health stack)
    (few : (turns () between).length < 2 ^ 32)
    (probe₂ : step second (.health ()) = some (after, [⟨(), status₂⟩])) :
    (status₂ = 0 ↔ ∃ turn ∈ turns () between, turn.completes = true) ↔
      (∃ turn ∈ turns () between, turn = .timeout ∨
        ∃ msgs, turn = .message msgs false ∧ kind msgs.first = .application) ∨
      ∀ turn ∈ turns () between, turn.completes = false := by
  rw [second_probe probe₁ run consecutive few probe₂]
  simp only [← counting_iff]
  constructor
  · -- Turns that count also complete; what is left are completed turns none of which counts.
    intro same
    by_cases counted : ∃ turn ∈ turns () between, Counting turn = true
    · exact .inl counted
    · have none := mt same.mpr counted
      push Not at none
      exact .inr fun turn member => by simpa using none turn member
  · rintro (counted | none)
    · obtain ⟨turn, member, counting⟩ := counted
      exact iff_of_true ⟨turn, member, counting⟩ ⟨turn, member, counting_completes counting⟩
    · refine iff_of_false ?_ ?_
      · rintro ⟨turn, member, counting⟩
        exact absurd (counting_completes counting) (by simp [none turn member])
      · rintro ⟨turn, member, completes⟩
        simp [none turn member] at completes

def ctrlTurn : Turn := .message (.publication ctrlTopic "stack-0".toList) false

/-- The loop turned between the two probes, and the second one reports it dead. -/
theorem ctrl_turn_reported_dead :
    ∃ first second after between,
      step initial (.health ()) = some (first, [⟨(), 1⟩]) ∧ Run step first between second ∧
      (∀ taken ∈ between, ∀ stack, taken.label ≠ .health stack) ∧
      (turns () between).length < 2 ^ 32 ∧
      step second (.health ()) = some (after, [⟨(), 1⟩]) ∧
      ¬ (1 = 0 ↔ ∃ turn ∈ turns () between, turn.completes = true) := by
  refine ⟨_, _, _, [⟨_, .turn () ctrlTurn, []⟩], rfl, .single rfl, ?_, ?_, rfl, ?_⟩
  · simp
  · decide
  · decide

theorem health_exact_iff_timeout :
    ((0 = 0 ↔ ∃ turn ∈ [Turn.timeout], turn.completes = true) ↔
      (∃ turn ∈ [Turn.timeout], turn = .timeout ∨
        ∃ msgs, turn = .message msgs false ∧ kind msgs.first = .application) ∨
      ∀ turn ∈ [Turn.timeout], turn.completes = false) :=
  @health_exact_iff initial _ _ _ [⟨_, .turn () .timeout, []⟩] 1 0 rfl (.single rfl) (by simp)
    (by decide) rfl

end Process

end ZmqPlayground
