import ZmqPlayground.ConvStack.Sources
import ZmqPlayground.Library.Runs

/-! The calls that change what a stack subscribes and converts, when the socket throws.

`Subscribe` and `Unsubscribe` change `m_subscriptions` before they call the socket,
`AddConversion` and `RemoveConversion` change `m_conversionMap` after it.
-/

set_option autoImplicit false

namespace ZmqPlayground

open Library.Runs

namespace ConvStack

inductive Call where
  | subscribe (topic : Str)
  | unsubscribe (topic : Str)
  | addConversion (subTopic : Str) (pubTopics : List Str)
  | removeConversion (subTopic : Str)
  deriving DecidableEq

def perform (option : SocketCall) (stack : ConvStack) : Call → ConvStack × SocketCall
  | .subscribe topic =>
      let (base, outcome) := stack.subscribe option topic
      ({ base with conversionMap := stack.conversionMap }, outcome)
  | .unsubscribe topic =>
      let (base, outcome) := stack.unsubscribe option topic
      ({ base with conversionMap := stack.conversionMap }, outcome)
  | .addConversion subTopic pubTopics => stack.addConversion option subTopic pubTopics
  | .removeConversion subTopic => stack.removeConversion option subTopic

/-- The topic is listed as the call wants it to be, so that there is nothing to change. -/
def Listed (stack : ConvStack) : Call → Prop
  | .subscribe topic | .addConversion topic _ => topic ∈ stack.subscriptions
  | .unsubscribe topic | .removeConversion topic => topic ∉ stack.subscriptions

instance (stack : ConvStack) (call : Call) : Decidable (stack.Listed call) :=
  match call with
  | .subscribe topic | .addConversion topic _ => inferInstanceAs (Decidable (topic ∈ stack.subscriptions))
  | .unsubscribe topic | .removeConversion topic => inferInstanceAs (Decidable (topic ∉ stack.subscriptions))

def Keeps (before after : ConvStack) : Prop :=
  after.subscriptions = before.subscriptions ∧ after.conversionMap = before.conversionMap

/-- A call that throws changes nothing exactly if there was nothing to change. -/
theorem keeps_throwing_iff (stack : ConvStack) (call : Call) :
    stack.Keeps (stack.perform .throws call).1 ↔ stack.Listed call := by
  cases call with
  | subscribe topic | addConversion topic _ =>
      exact (and_iff_left rfl).trans Finset.insert_eq_self
  | unsubscribe topic | removeConversion topic =>
      exact (and_iff_left rfl).trans Finset.erase_eq_self

/-- A stack whose SUB socket is open until `Stop` has closed it. -/
structure Stoppable where
  stack : ConvStack
  closed : Bool
  deriving DecidableEq

namespace Stoppable

inductive Label where
  | call (call : Call) (option : SocketCall)
  | accept (channel : Channel) (msgs : Message)
  | stop
  deriving DecidableEq

/-- A socket option call may throw at any time, and it does once the socket is closed. The receiver has
a socket of its own. A call emits how it ends. -/
def step : Step Stoppable Label SocketCall := fun owner label =>
  match label with
  | .call call option =>
      if owner.closed = true ∧ option = .done then none
      else
        let (stack, outcome) := owner.stack.perform option call
        some ({ owner with stack }, [outcome])
  | .accept channel msgs =>
      if owner.closed = true ∧ channel = .subscriber then none
      else some ({ owner with stack := (owner.stack.accept channel msgs).1 }, [])
  | .stop => some ({ owner with closed := true }, [])

def Throws (taken : Taken Stoppable Label SocketCall) : Prop :=
  match taken.label with
  | .call _ .throws => True
  | _ => False

/-- A call that throws finds its topic listed as it wants it to be. -/
def NothingToChange (taken : Taken Stoppable Label SocketCall) : Prop :=
  match taken.label with
  | .call call .throws => taken.before.stack.Listed call
  | _ => True

instance (taken : Taken Stoppable Label SocketCall) : Decidable (Throws taken) :=
  match taken with
  | ⟨_, .call _ .throws, _⟩ => isTrue trivial
  | ⟨_, .call _ .done, _⟩ | ⟨_, .accept _ _, _⟩ | ⟨_, .stop, _⟩ => isFalse id

instance (taken : Taken Stoppable Label SocketCall) : Decidable (NothingToChange taken) :=
  match taken with
  | ⟨before, .call call .throws, _⟩ => inferInstanceAs (Decidable (before.stack.Listed call))
  | ⟨_, .call _ .done, _⟩ | ⟨_, .accept _ _, _⟩ | ⟨_, .stop, _⟩ => isTrue trivial

variable {before after : Stoppable} {label : Label} {events : List SocketCall}

theorem step_call {call : Call} {option : SocketCall}
    (stepped : step before (.call call option) = some (after, events)) :
    after = { before with stack := (before.stack.perform option call).1 } := by
  simp only [step] at stepped
  split at stepped <;> cases stepped
  rfl

theorem step_keeps_iff (stepped : step before label = some (after, events)) :
    (Throws ⟨before, label, events⟩ → before.stack.Keeps after.stack) ↔
      NothingToChange ⟨before, label, events⟩ := by
  cases label with
  | call call option =>
      cases option with
      | done => exact iff_of_true False.elim trivial
      | throws =>
          rw [step_call stepped]
          exact true_imp_iff.trans (keeps_throwing_iff before.stack call)
  | accept | stop => exact iff_of_true False.elim trivial

/-- In every run, from whatever state, each call that throws leaves the subscriptions and the
conversions as they were, exactly if each finds that there is nothing to change. -/
theorem throwing_keeps_iff {start final : Stoppable} {steps : List (Taken Stoppable Label SocketCall)}
    (run : Run step start steps final) :
    (∀ first taken rest after, steps = first ++ taken :: rest → Run step start (first ++ [taken]) after →
        Throws taken → taken.before.stack.Keeps after.stack) ↔
      ∀ taken ∈ steps, NothingToChange taken := by
  constructor
  · intro keeps taken member
    obtain ⟨first, rest, after, rfl, front, stepped, -⟩ := run.reached member
    exact (step_keeps_iff stepped).mp (keeps first taken rest after rfl (.snoc front stepped))
  · rintro nothing first taken rest after rfl upTo
    obtain ⟨_, _, last⟩ := upTo.cut
    obtain ⟨rfl, _, stepped, done⟩ := last.of_cons
    obtain rfl := done.of_nil
    exact (step_keeps_iff stepped).mpr (nothing taken (by simp))

def running : Stoppable :=
  ⟨.create (fun _ => true) [] ["topic1".toList]
    ((∅ : ConversionMap).insert "topic1".toList ["topic2".toList]), false⟩

/-- A topic that is already listed is subscribed again after the socket has been closed. -/
theorem throwing_keeps_iff_listed : ∃ steps final,
    Run step running steps final ∧ (∃ taken ∈ steps, Throws taken) ∧
      ∀ first taken rest after, steps = first ++ taken :: rest → Run step running (first ++ [taken]) after →
        Throws taken → taken.before.stack.Keeps after.stack := by
  have computed : (exec step running [.stop, .call (.subscribe "topic1".toList) .throws]).any
      (fun (steps, _) => decide (∃ taken ∈ steps, Throws taken) &&
        decide (∀ taken ∈ steps, NothingToChange taken)) = true := by
    decide +kernel
  obtain ⟨steps, final, run, checked⟩ := exists_run_of_exec computed
  simp only [Bool.and_eq_true, decide_eq_true_eq] at checked
  exact ⟨steps, final, run, checked.1, (throwing_keeps_iff run).mpr checked.2⟩

/-- After `Stop`, `RemoveConversion` throws: the topic is no longer listed and is still converted. -/
theorem removed_by_half : ∃ steps final,
    Run step running steps final ∧ (∃ taken ∈ steps, Throws taken ∧ ¬ taken.before.stack.Keeps final.stack) ∧
      "topic1".toList ∉ final.stack.subscriptions ∧ "topic1".toList ∈ final.stack.conversionMap.keys := by
  have computed : (exec step running [.stop, .call (.removeConversion "topic1".toList) .throws]).any
      (fun (steps, final) => decide (∃ taken ∈ steps, Throws taken ∧
          taken.before.stack.subscriptions ≠ final.stack.subscriptions) &&
        decide ("topic1".toList ∉ final.stack.subscriptions) &&
        decide ("topic1".toList ∈ final.stack.conversionMap.keys)) = true := by
    decide +kernel
  obtain ⟨steps, final, run, checked⟩ := exists_run_of_exec computed
  simp only [Bool.and_eq_true, decide_eq_true_eq] at checked
  obtain ⟨⟨⟨taken, member, throws, changed⟩, unlisted⟩, converted⟩ := checked
  exact ⟨steps, final, run, ⟨taken, member, throws, fun keeps => changed keeps.1.symm⟩, unlisted, converted⟩

end Stoppable

end ConvStack

end ZmqPlayground
