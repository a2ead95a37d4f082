import ZmqPlayground.Common.Health

/-! What the probes of one stack tell about the other stacks of its process.

The results a stack would have with a count of its own are computed from its own
turns and probes alone. The static that all stacks share gives these results to
a stack as long as no other one is probed between its probes.
-/

set_option autoImplicit false

namespace ZmqPlayground

open Library Library.Runs Subscriber

namespace Process

inductive Own where
  | turn (turn : Turn)
  | stop
  | health

/-- A stack whose `Health` remembers its own count. -/
structure Alone where
  lastCount : UInt32
  loop : Loop
  results : List Nat

def Alone.record (alone : Alone) : Own → Alone
  | .turn turn => { alone with loop := alone.loop.turn turn }
  | .stop => { alone with loop := { alone.loop with running := false } }
  | .health =>
      let (status, lastCount) := ZmqStack.health alone.lastCount alone.loop.count
      { alone with lastCount := lastCount, results := alone.results ++ [status] }

def alone (lastCount : UInt32) (events : List Own) : Alone :=
  events.foldl Alone.record ⟨lastCount, .initial, []⟩

theorem alone_snoc (lastCount : UInt32) (events : List Own) (event : Own) :
    alone lastCount (events ++ [event]) = (alone lastCount events).record event := by
  rw [alone, List.foldl_append]
  rfl

theorem results_prefix (start : Alone) (events : List Own) :
    start.results <+: (events.foldl Alone.record start).results := by
  induction events generalizing start with
  | nil => exact List.prefix_rfl
  | cons event events ih =>
      refine List.IsPrefix.trans ?_ (ih (start.record event))
      cases event with
      | turn | stop => exact List.prefix_rfl
      | health => exact List.prefix_append _ _

theorem alone_of_unprobed (lastCount : UInt32) {events : List Own} (unprobed : Own.health ∉ events) :
    alone lastCount events = ⟨lastCount, (alone 0 events).loop, []⟩ := by
  induction events using List.reverseRecOn with
  | nil => rfl
  | append_singleton events event ih =>
      simp only [List.mem_append, List.mem_singleton, not_or] at unprobed
      rw [alone_snoc, alone_snoc, ih unprobed.1]
      cases event with
      | turn | stop => rfl
      | health => exact absurd rfl unprobed.2

theorem alone_sensitive {events : List Own} (probed : Own.health ∈ events) :
    ∃ lastCount, (alone lastCount events).results ≠ (alone 0 events).results := by
  -- The first probe shows what count was remembered before it.
  obtain ⟨past, rest, rfl, unprobed⟩ := List.eq_append_cons_of_mem probed
  let count := (alone 0 past).loop.count
  have first : ∀ lastCount, [(ZmqStack.health lastCount count).1] <+:
      (alone lastCount (past ++ .health :: rest)).results := by
    intro lastCount
    have split : alone lastCount (past ++ .health :: rest) =
        rest.foldl Alone.record ((alone lastCount past).record .health) := by
      rw [alone, List.foldl_append]
      rfl
    rw [split, alone_of_unprobed lastCount unprobed]
    exact results_prefix (Alone.record ⟨lastCount, (alone 0 past).loop, []⟩ .health) rest
  have differ : ∃ lastCount, (ZmqStack.health lastCount count).1 ≠ (ZmqStack.health 0 count).1 := by
    by_cases zero : count = 0
    · exact ⟨1, by simp [ZmqStack.health, zero]⟩
    · exact ⟨count, by simp [ZmqStack.health, Ne.symm zero]⟩
  obtain ⟨lastCount, different⟩ := differ
  refine ⟨lastCount, fun same => different ?_⟩
  have one := first lastCount
  rw [same] at one
  have equal := (List.prefix_of_prefix_length_le one (first 0) (le_refl 1)).eq_of_length rfl
  exact List.singleton_inj.mp equal

variable {Stack : Type} [DecidableEq Stack]

def Label.own (stack : Stack) : Label Stack → Option Own
  | .turn other met => if other = stack then some (.turn met) else none
  | .stop other => if other = stack then some .stop else none
  | .health other => if other = stack then some .health else none

def own (stack : Stack) (steps : List (Taken (Process Stack) (Label Stack) (Probed Stack))) : List Own :=
  steps.filterMap (·.label.own stack)

def Probed.result (stack : Stack) (probed : Probed Stack) : Option Nat :=
  if probed.stack = stack then some probed.status else none

def results (stack : Stack) (events : List (Probed Stack)) : List Nat :=
  events.filterMap (Probed.result stack)

/-- What a stack sees of a step: a move of its own loop, its own probe, or something elsewhere. -/
inductive Seen (stack : Stack) (before : Process Stack) :
    Label Stack → Process Stack → List (Probed Stack) → Prop where
  | moves {label : Label Stack} {after : Process Stack} {event : Own}
      (own : label.own stack = some event)
      (moved : ∀ alone : Alone, alone.loop = before.loops stack →
        alone.record event = { alone with loop := after.loops stack })
      (kept : after.lastCount = before.lastCount) : Seen stack before label after []
  | probes : Seen stack before (.health stack)
      { before with lastCount := (before.loops stack).count }
      [⟨stack, (ZmqStack.health before.lastCount (before.loops stack).count).1⟩]
  | elsewhere {label : Label Stack} {after : Process Stack} {events : List (Probed Stack)}
      (foreign : label.own stack = none) (same : after.loops stack = before.loops stack)
      (kept : events = [] → after.lastCount = before.lastCount)
      (others : ∀ probed ∈ events, probed.stack ≠ stack) : Seen stack before label after events

section Run
variable {stack : Stack} {before after start final : Process Stack} {label : Label Stack}
  {events : List (Probed Stack)} {steps : List (Taken (Process Stack) (Label Stack) (Probed Stack))}

theorem step_seen (stack : Stack) (stepped : step before label = some (after, events)) :
    Seen stack before label after events := by
  cases label with
  | turn other met =>
      simp only [step] at stepped
      split at stepped <;> cases stepped
      by_cases own : other = stack
      · subst own
        exact .moves (if_pos rfl) (fun alone same => by simp [Alone.record, setLoop, same]) rfl
      · exact .elsewhere (if_neg own) (Function.update_of_ne (Ne.symm own) _ _) (fun _ => rfl) (by simp)
  | stop other =>
      cases stepped
      by_cases own : other = stack
      · subst own
        exact .moves (if_pos rfl) (fun alone same => by simp [Alone.record, setLoop, same]) rfl
      · exact .elsewhere (if_neg own) (Function.update_of_ne (Ne.symm own) _ _) (fun _ => rfl) (by simp)
  | health other =>
      cases stepped
      by_cases own : other = stack
      · subst own
        exact .probes
      · exact .elsewhere (if_neg own) rfl (by simp) (by simpa using own)

theorem own_snoc (steps : List (Taken (Process Stack) (Label Stack) (Probed Stack)))
    (last : Taken (Process Stack) (Label Stack) (Probed Stack)) :
    own stack (steps ++ [last]) = own stack steps ++ (last.label.own stack).toList :=
  filterMap_snoc _ _ _

theorem own_append (first rest : List (Taken (Process Stack) (Label Stack) (Probed Stack))) :
    own stack (first ++ rest) = own stack first ++ own stack rest :=
  List.filterMap_append

theorem results_append (past more : List (Probed Stack)) :
    results stack (past ++ more) = results stack past ++ results stack more :=
  List.filterMap_append

theorem results_of_others (others : ∀ probed ∈ events, probed.stack ≠ stack) :
    results stack events = [] := by
  rw [results, List.filterMap_eq_nil_iff]
  exact fun probed member => if_neg (others probed member)

/-- Before each probe of the stack the latest probe was its own, if there was one. -/
def Undisturbed (stack : Stack) (steps : List (Taken (Process Stack) (Label Stack) (Probed Stack))) :
    Prop :=
  ∀ first taken rest, steps = first ++ taken :: rest → taken.label = .health stack →
    ∀ probed ∈ (trace first).getLast?, probed.stack = stack

/-- An undisturbed stack has the results it would have alone: the static holds its own count, unless
another stack has been probed since. -/
theorem run_alone (run : Run step initial steps final) (undisturbed : Undisturbed stack steps) :
    final.loops stack = (alone 0 (own stack steps)).loop ∧
      results stack (trace steps) = (alone 0 (own stack steps)).results ∧
      ((∀ probed ∈ (trace steps).getLast?, probed.stack = stack) →
        final.lastCount = (alone 0 (own stack steps)).lastCount) := by
  induction run with
  | nil => exact ⟨rfl, rfl, fun _ => rfl⟩
  | @snoc steps before after label events _ stepped ih =>
      obtain ⟨loop, shown, remembered⟩ := ih fun first taken rest same =>
        undisturbed first taken (rest ++ [⟨before, label, events⟩]) (by simp [same])
      rw [own_snoc, trace_append, trace_singleton]
      cases step_seen stack stepped with
      | moves own moved kept =>
          rw [own, Option.toList_some, alone_snoc, moved _ loop.symm, List.append_nil]
          exact ⟨rfl, shown, fun latest => kept.trans (remembered latest)⟩
      | probes =>
          have count := remembered (undisturbed steps _ [] rfl rfl)
          rw [show (Label.health stack).own stack = some .health from if_pos rfl,
            Option.toList_some, alone_snoc, results_append, shown]
          simp only [Alone.record, ← loop, ← count]
          exact ⟨trivial, by simp [results, Probed.result], fun _ => rfl⟩
      | elsewhere foreign same kept others =>
          rw [foreign, Option.toList_none, List.append_nil, results_append, results_of_others others,
            List.append_nil]
          refine ⟨same.trans loop, shown, fun latest => ?_⟩
          -- A probe of another stack would be the latest one now.
          rcases List.eq_nil_or_concat events with rfl | ⟨_, last, rfl⟩
          · exact (kept rfl).trans (remembered (by simpa using latest))
          · exact absurd (latest last (by simp)) (others last (by simp))

theorem results_of_unprobed (run : Run step start steps final) (unprobed : Own.health ∉ own stack steps) :
    results stack (trace steps) = [] := by
  induction run with
  | nil => rfl
  | snoc _ stepped ih =>
      rw [own_snoc, List.mem_append, not_or] at unprobed
      rw [trace_append, trace_singleton, results_append, ih unprobed.1, List.nil_append]
      cases step_seen stack stepped with
      | moves => rfl
      | probes => simp [Label.own] at unprobed
      | elsewhere _ _ _ others => exact results_of_others others

theorem step_again {other : Process Stack} {event : Own} (stepped : step before label = some (after, events))
    (own : label.own stack = some event) (same : other.loops stack = before.loops stack) :
    ∃ next more, step other label = some (next, more) ∧ next.loops stack = after.loops stack := by
  cases label with
  | turn owner met =>
      obtain ⟨rfl, -⟩ := Option.ite_none_right_eq_some.mp own
      simp only [step] at stepped ⊢
      split at stepped <;> cases stepped
      rename_i running
      refine ⟨_, _, if_pos (same ▸ running), ?_⟩
      simp [setLoop, same]
  | stop owner =>
      obtain ⟨rfl, -⟩ := Option.ite_none_right_eq_some.mp own
      cases stepped
      exact ⟨_, _, rfl, by simp [setLoop, same]⟩
  | health owner =>
      cases stepped
      exact ⟨_, _, rfl, same⟩

theorem run_own (run : Run step initial steps final) (fresh : start.loops stack = .initial) :
    ∃ replayed last, Run step start replayed last ∧ own stack replayed = own stack steps ∧
      last.loops stack = final.loops stack ∧
      last.loops stack = (alone start.lastCount (own stack steps)).loop ∧
      last.lastCount = (alone start.lastCount (own stack steps)).lastCount ∧
      results stack (trace replayed) = (alone start.lastCount (own stack steps)).results := by
  induction run with
  | nil => exact ⟨[], start, .nil, rfl, fresh, fresh, rfl, rfl⟩
  | @snoc steps before after label events _ stepped ih =>
      obtain ⟨replayed, last, run, sameOwn, sameLoop, loop, count, shown⟩ := ih
      rw [own_snoc]
      cases owned : label.own stack with
      | none =>
          rw [Option.toList_none, List.append_nil]
          cases step_seen stack stepped with
          | moves own => simp [owned] at own
          | probes => simp [Label.own] at owned
          | elsewhere _ same => exact ⟨replayed, last, run, sameOwn, sameLoop.trans same.symm, loop, count, shown⟩
      | some event =>
          obtain ⟨next, more, again, reached⟩ := step_again stepped owned sameLoop
          refine ⟨_, next, run.snoc again, by rw [own_snoc, sameOwn, owned], reached, ?_⟩
          rw [Option.toList_some, alone_snoc, trace_append, trace_singleton, results_append, shown]
          cases step_seen stack again with
          | moves own moved kept =>
              obtain rfl := Option.some.inj (owned.symm.trans own)
              rw [moved _ loop.symm]
              exact ⟨rfl, kept.trans count, by simp [results]⟩
          | probes =>
              obtain rfl : event = .health := by simpa [Label.own, eq_comm] using owned
              simp only [Alone.record, ← loop, ← count]
              exact ⟨trivial, rfl, by simp [results, Probed.result, ZmqStack.health]⟩
          | elsewhere foreign => simp [owned] at foreign

/-- Another stack can set the static to any count, while the stack itself has not begun. -/
theorem run_elsewhere {other : Stack} (different : other ≠ stack) (turned : ℕ) :
    ∃ steps final, Run step (initial : Process Stack) steps final ∧ own stack steps = [] ∧ trace steps = [] ∧
      final.loops stack = .initial ∧ final.loops other = ⟨.ofNat turned, 0, true⟩ := by
  induction turned with
  | zero => exact ⟨[], _, .nil, rfl, rfl, rfl, rfl⟩
  | succ turned ih =>
      obtain ⟨steps, final, run, silent, none, fresh, count⟩ := ih
      have stepped : step final (.turn other .timeout) =
          some (final.setLoop other ((final.loops other).turn .timeout), []) := by
        rw [step, if_pos (by rw [count])]
      refine ⟨_, _, run.snoc stepped, ?_, ?_, ?_, ?_⟩
      · rw [own_snoc, silent]
        simp [Label.own, different]
      · rw [trace_append, none, trace_singleton]
        rfl
      · rw [setLoop]
        exact (Function.update_of_ne different.symm _ _).trans fresh
      · rw [setLoop]
        refine (Function.update_self _ _ _).trans ?_
        rw [count, Loop.turn, UInt32.ofNat_add]
        rfl

theorem run_remembering {other : Stack} (different : other ≠ stack) (lastCount : UInt32) :
    ∃ steps final, Run step (initial : Process Stack) steps final ∧ own stack steps = [] ∧
      results stack (trace steps) = [] ∧ final.loops stack = .initial ∧ final.lastCount = lastCount := by
  obtain ⟨steps, final, run, silent, none, fresh, count⟩ := run_elsewhere different lastCount.toNat
  have probed : step final (.health other) = some ({ final with lastCount := (final.loops other).count },
      [⟨other, (ZmqStack.health final.lastCount (final.loops other).count).1⟩]) := rfl
  refine ⟨_, _, run.snoc probed, ?_, ?_, fresh, ?_⟩
  · rw [own_snoc, silent]
    simp [Label.own, different]
  · rw [trace_append, none, trace_singleton]
    exact results_of_others (by simpa using different)
  · simp [count]

/-- A stack's results depend on its own events alone if it is not probed, or is the only one of its
process, and not otherwise; and they do as far as no other stack is probed between its probes. -/
theorem health_isolated_iff (run : Run step (initial : Process Stack) steps final) (stack : Stack) :
    ((∀ steps' final', Run step initial steps' final' → own stack steps' = own stack steps →
        results stack (trace steps') = results stack (trace steps)) ↔
      (∀ other, other = stack) ∨ Own.health ∉ own stack steps) ∧
    (Undisturbed stack steps → ∀ steps' final', Run step initial steps' final' →
      own stack steps' = own stack steps → Undisturbed stack steps' →
        results stack (trace steps') = results stack (trace steps)) := by
  have agrees : Undisturbed stack steps → ∀ steps' final', Run step initial steps' final' →
      own stack steps' = own stack steps → Undisturbed stack steps' →
        results stack (trace steps') = results stack (trace steps) := by
    intro undisturbed steps' final' run' same undisturbed'
    rw [(run_alone run undisturbed).2.1, (run_alone run' undisturbed').2.1, same]
  refine ⟨⟨fun isolated => ?_, ?_⟩, agrees⟩
  · by_contra both
    push Not at both
    obtain ⟨⟨other, different⟩, probed⟩ := both
    obtain ⟨lastCount, sensitive⟩ := alone_sensitive probed
    -- Only the count that another stack has left differs between the two runs.
    have shows : ∀ lastCount, (alone lastCount (own stack steps)).results = results stack (trace steps) := by
      intro lastCount
      obtain ⟨first, middle, front, silent, none, fresh, rfl⟩ := run_remembering different lastCount
      obtain ⟨replayed, last, back, sameOwn, -, -, -, shown⟩ := run_own run fresh
      rw [← shown, ← isolated _ _ (front.append back) (by rw [own_append, silent, List.nil_append, sameOwn]),
        trace_append, results_append, none, List.nil_append]
    exact sensitive ((shows lastCount).trans (shows 0).symm)
  · rintro (only | unprobed) steps' final' run' same
    · have lonely : ∀ others, Undisturbed stack others := fun _ _ _ _ _ _ probed _ => only probed.stack
      exact agrees (lonely _) _ _ run' same (lonely _)
    · rw [results_of_unprobed run unprobed, results_of_unprobed run' (same ▸ unprobed)]

/-- The only stack of a process turns once and is probed. -/
theorem health_isolated_iff_single : ∃ steps final, Run step (initial : Process Unit) steps final ∧
    results () (trace steps) = [0] ∧ ∀ steps' final', Run step initial steps' final' →
      own () steps' = own () steps → results () (trace steps') = [0] := by
  have run := exec_run (show exec step (initial : Process Unit) [.turn () .timeout, .health ()] =
    some (_, _) from rfl)
  exact ⟨_, _, run, rfl, (health_isolated_iff run ()).1.mpr (.inl fun _ => rfl)⟩

/-- Of two stacks, the first is probed before it has turned, once with a turn and a probe of the
second before it. -/
theorem probed_elsewhere : ∃ steps final steps' final',
    Run step (initial : Process Bool) steps final ∧ Run step initial steps' final' ∧
      own true steps = own true steps' ∧
      results true (trace steps) = [1] ∧ results true (trace steps') = [0] := by
  have undisturbed := exec_run (show exec step (initial : Process Bool) [.health true] = some (_, _) from rfl)
  have disturbed := exec_run (show exec step (initial : Process Bool)
    [.turn false .timeout, .health false, .health true] = some (_, _) from rfl)
  exact ⟨_, _, _, _, undisturbed, disturbed, rfl, rfl, rfl⟩

end Run

end Process

end ZmqPlayground
