import Mathlib.Data.List.Induction

/-! Runs of a partial step function.

A label carries what the code does not choose by itself: the result of a system
call, the thread that moves next, the argument of a call. A label that the code
or its environment cannot take in a state has no successor there.
-/

set_option autoImplicit false

namespace Library.Runs

/-- The successor of a state under a label, with the events the step emits. -/
abbrev Step (S L E : Type) := S → L → Option (S × List E)

/-- One step of a run, with the state it was taken in. -/
structure Taken (S L E : Type) where
  before : S
  label : L
  events : List E

variable {S L E : Type}

def trace (steps : List (Taken S L E)) : List E :=
  steps.flatMap (·.events)

@[simp] theorem trace_nil : trace ([] : List (Taken S L E)) = [] := rfl

@[simp] theorem trace_append (first rest : List (Taken S L E)) :
    trace (first ++ rest) = trace first ++ trace rest := by
  simp [trace]

@[simp] theorem trace_singleton (taken : Taken S L E) : trace [taken] = taken.events := by
  simp [trace]

theorem filterMap_snoc {A B : Type} (f : A → Option B) (items : List A) (last : A) :
    (items ++ [last]).filterMap f = items.filterMap f ++ (f last).toList := by
  rw [List.filterMap_append]
  cases found : f last <;> simp [found]

/-- Runs grow at their end, so that an induction sees the history of each step. -/
inductive Run (step : Step S L E) (start : S) : List (Taken S L E) → S → Prop where
  | nil : Run step start [] start
  | snoc {steps : List (Taken S L E)} {before after : S} {label : L} {events : List E} :
      Run step start steps before → step before label = some (after, events) →
      Run step start (steps ++ [⟨before, label, events⟩]) after

variable {step : Step S L E} {start final : S} {steps : List (Taken S L E)}

theorem Run.single {label : L} {events : List E} (stepped : step start label = some (final, events)) :
    Run step start [⟨start, label, events⟩] final :=
  .snoc .nil stepped

theorem Run.append {middle : S} {first rest : List (Taken S L E)}
    (front : Run step start first middle) (back : Run step middle rest final) :
    Run step start (first ++ rest) final := by
  induction back with
  | nil => simpa using front
  | snoc _ stepped ih => simpa only [List.append_assoc] using Run.snoc ih stepped

theorem Run.cut {first rest : List (Taken S L E)} (run : Run step start (first ++ rest) final) :
    ∃ middle, Run step start first middle ∧ Run step middle rest final := by
  induction rest using List.reverseRecOn generalizing final with
  | nil => exact ⟨final, by simpa using run, .nil⟩
  | append_singleton rest last ih =>
      rw [← List.append_assoc] at run
      generalize same : first ++ rest ++ [last] = all at run
      cases run with
      | nil => simp at same
      | snoc front stepped =>
          obtain ⟨same, lastSame⟩ := List.append_inj' same rfl
          obtain ⟨middle, before, after⟩ := ih (same ▸ front)
          cases lastSame
          exact ⟨middle, before, .snoc after stepped⟩

theorem Run.of_nil (run : Run step start [] final) : final = start := by
  generalize empty : [] = none at run
  cases run with
  | nil => rfl
  | snoc => simp at empty

theorem Run.of_cons {taken : Taken S L E} (run : Run step start (taken :: steps) final) :
    taken.before = start ∧ ∃ next,
      step start taken.label = some (next, taken.events) ∧ Run step next steps final := by
  obtain ⟨next, front, back⟩ := (show Run step start ([taken] ++ steps) final from run).cut
  generalize same : [taken] = one at front
  cases front with
  | nil => cases same
  | snoc earlier stepped =>
      obtain ⟨rfl, lastSame⟩ := List.append_inj' (show [] ++ [taken] = _ from same) rfl
      cases lastSame
      have atStart := earlier.of_nil
      subst atStart
      exact ⟨rfl, next, stepped, back⟩

theorem Run.mono {step' : Step S L E}
    (follows : ∀ state label result, step state label = some result → step' state label = some result)
    (run : Run step start steps final) : Run step' start steps final := by
  induction run with
  | nil => exact .nil
  | snoc _ stepped ih => exact .snoc ih (follows _ _ _ stepped)

/-- What holds at the start and is kept by every permitted step holds at the end. The
invariant may speak of the events emitted so far. -/
theorem Run.history (permitted : Taken S L E → Prop) (invariant : List E → S → Prop)
    (initially : invariant [] start)
    (kept : ∀ past before label after events, invariant past before →
      permitted ⟨before, label, events⟩ → step before label = some (after, events) →
      invariant (past ++ events) after)
    (run : Run step start steps final) (allowed : ∀ taken ∈ steps, permitted taken) :
    invariant (trace steps) final := by
  induction run with
  | nil => exact initially
  | snoc _ stepped ih =>
      simp only [List.mem_append, List.mem_singleton] at allowed
      rw [trace_append, trace_singleton]
      exact kept _ _ _ _ _ (ih fun taken member => allowed taken (.inl member))
        (allowed _ (.inr rfl)) stepped

theorem Run.invariant (permitted : Taken S L E → Prop) (holds : S → Prop) (initially : holds start)
    (kept : ∀ before label after events, holds before → permitted ⟨before, label, events⟩ →
      step before label = some (after, events) → holds after)
    (run : Run step start steps final) (allowed : ∀ taken ∈ steps, permitted taken) : holds final :=
  run.history permitted (fun _ => holds) initially
    (fun _ before label after events => kept before label after events) allowed

theorem Run.always (holds : S → Prop) (initially : holds start)
    (kept : ∀ before label after events, holds before → step before label = some (after, events) → holds after)
    (run : Run step start steps final) : holds final :=
  run.invariant (fun _ => True) holds initially
    (fun before label after events now _ => kept before label after events now) fun _ _ => trivial

/-- Under an invariant of the steps taken, a property that each step keeps exactly if it is no fault is
left exactly if no step has been one. -/
theorem Run.exactly (invariant : List (Taken S L E) → S → Prop) (holds : S → Prop) (fault : Taken S L E → Prop)
    (initially : invariant [] start ∧ holds start)
    (kept : ∀ past before label after events, invariant past before →
      step before label = some (after, events) →
      invariant (past ++ [⟨before, label, events⟩]) after ∧
        (holds after ↔ holds before ∧ ¬ fault ⟨before, label, events⟩))
    (run : Run step start steps final) :
    invariant steps final ∧ (holds final ↔ ∀ taken ∈ steps, ¬ fault taken) := by
  induction run with
  | nil => exact ⟨initially.1, iff_of_true initially.2 (by simp)⟩
  | snoc _ stepped ih =>
      obtain ⟨still, exact_step⟩ := kept _ _ _ _ _ ih.1 stepped
      apply And.intro still
      rw [exact_step, ih.2]
      simp [or_imp, forall_and]

theorem Run.reached (run : Run step start steps final) {taken : Taken S L E} (member : taken ∈ steps) :
    ∃ first rest after, steps = first ++ taken :: rest ∧ Run step start first taken.before ∧
      step taken.before taken.label = some (after, taken.events) ∧ Run step after rest final := by
  obtain ⟨first, rest, rfl⟩ := List.append_of_mem member
  obtain ⟨middle, front, back⟩ := run.cut
  obtain ⟨rfl, after, stepped, back⟩ := back.of_cons
  exact ⟨first, rest, after, rfl, front, stepped, back⟩

section Since
variable (begins ends : Taken S L E → Prop)

/-- Something has begun and has not ended since. -/
def Since (steps : List (Taken S L E)) : Prop :=
  ∃ first taken rest, steps = first ++ taken :: rest ∧ begins taken ∧ ∀ later ∈ rest, ¬ ends later

variable {begins ends}

theorem since_cons {taken : Taken S L E} {rest : List (Taken S L E)} (begun : begins taken)
    (unended : ∀ later ∈ rest, ¬ ends later) : Since begins ends (taken :: rest) :=
  ⟨[], taken, rest, rfl, begun, unended⟩

theorem Run.flag_iff {flag : S → Bool} (clear : flag start = false)
    (sets : ∀ before label after events, step before label = some (after, events) →
      (flag after = true ↔ flag before = true ∨ ends ⟨before, label, events⟩))
    (run : Run step start steps final) : flag final = true ↔ ∃ taken ∈ steps, ends taken := by
  induction run with
  | nil => simp [clear]
  | snoc _ stepped ih =>
      rw [sets _ _ _ _ stepped, ih]
      simp [or_and_right, exists_or]

/-- A flag that is set by what ends, and never cleared, is clear after every beginning exactly if
nothing has ended before one. -/
theorem Run.since_clear_iff {flag : S → Bool} (clear : flag start = false)
    (sets : ∀ before label after events, step before label = some (after, events) →
      (flag after = true ↔ flag before = true ∨ ends ⟨before, label, events⟩))
    (distinct : ∀ taken, begins taken → ¬ ends taken) (run : Run step start steps final) :
    (∀ first rest middle, steps = first ++ rest → Run step start first middle →
        Since begins ends first → flag middle = false) ↔
      ∀ first taken rest, steps = first ++ taken :: rest → begins taken →
        ∀ earlier ∈ first, ¬ ends earlier := by
  constructor
  · rintro clearly first taken rest rfl begun earlier member ended
    have front : first ++ taken :: rest = (first ++ [taken]) ++ rest := by simp
    rw [front] at run clearly
    obtain ⟨middle, upTo, -⟩ := run.cut
    have unset := clearly _ _ middle rfl upTo ⟨first, taken, [], rfl, begun, by simp⟩
    have set := (upTo.flag_iff clear sets).mpr ⟨earlier, by simp [member], ended⟩
    rw [unset] at set
    cases set
  · rintro never _ rest middle rfl upTo ⟨first, taken, later, rfl, begun, unended⟩
    by_contra set
    rw [Bool.not_eq_false] at set
    obtain ⟨ending, member, ended⟩ := (upTo.flag_iff clear sets).mp set
    rcases List.mem_append.mp member with before | after
    · exact never first taken (later ++ rest) (by simp) begun ending before ended
    · rcases List.mem_cons.mp after with rfl | after
      · exact distinct _ begun ended
      · exact unended ending after ended

end Since

section Until
variable (single : ∀ before label after events, step before label = some (after, events) →
    events.length ≤ 1)

include single in
theorem Run.cut_event {event : E} {past rest : List E} (run : Run step start steps final)
    (split : trace steps = past ++ event :: rest) :
    ∃ first second before label after, Run step start first before ∧ trace first = past ∧
      step before label = some (after, [event]) ∧ Run step after second final ∧
      trace second = rest := by
  induction run generalizing rest with
  | nil => simp at split
  | snoc run stepped ih =>
      rename_i events
      rw [trace_append, trace_singleton] at split
      have short := single _ _ _ _ stepped
      cases events with
      | nil =>
          rw [List.append_nil] at split
          obtain ⟨first, second, before, label, after, front, same, emits, back, kept⟩ := ih split
          exact ⟨first, _, before, label, after, front, same, emits, .snoc back stepped, by simp [kept]⟩
      | cons last more =>
          obtain rfl : more = [] := List.eq_nil_of_length_eq_zero (by simpa using short)
          rcases List.eq_nil_or_concat rest with rfl | ⟨rest, final, rfl⟩
          · obtain ⟨same, lastSame⟩ := List.append_inj' split rfl
            cases lastSame
            exact ⟨_, [], _, _, _, run, same, stepped, .nil, rfl⟩
          · rw [List.concat_eq_append, ← List.cons_append, ← List.append_assoc] at split
            obtain ⟨same, lastSame⟩ := List.append_inj' split rfl
            cases lastSame
            obtain ⟨first, second, before, label, after, front, same, emits, back, kept⟩ := ih same
            exact ⟨first, _, before, label, after, front, same, emits, .snoc back stepped,
              by simp [kept]⟩

include single in
/-- Once an event that closes has been emitted, none that shows follows until one opens again. -/
theorem Run.until (closes opens shows : E → Prop) (quiet : S → Prop)
    (distinct : ∀ event, shows event → ¬ opens event)
    (closed : ∀ steps before label after event, Run step start steps before →
      step before label = some (after, [event]) → closes event → quiet after)
    (kept : ∀ before label after events, quiet before → step before label = some (after, events) →
      (∀ event ∈ events, ¬ opens event) → quiet after ∧ ∀ event ∈ events, ¬ shows event)
    (run : Run step start steps final) {past middle rest : List E} {first last : E}
    (split : trace steps = past ++ first :: (middle ++ last :: rest)) (closing : closes first)
    (showing : shows last) : ∃ event ∈ middle, opens event := by
  by_contra unopened
  push Not at unopened
  obtain ⟨_, _, _, _, _, front, _, emits, back, same⟩ := run.cut_event single split
  have quietly := closed _ _ _ _ _ front emits closing
  obtain ⟨_, _, _, _, _, between, rfl, shown, _, _⟩ := back.cut_event single same
  have still := between.invariant (fun taken => ∀ event ∈ taken.events, ¬ opens event) quiet quietly
    (fun before label after events holds unopened stepped =>
      (kept before label after events holds stepped unopened).1)
    fun taken member event emitted =>
      unopened event (List.mem_flatMap.mpr ⟨taken, member, emitted⟩)
  refine (kept _ _ _ _ still shown fun event emitted => ?_).2 last (List.mem_singleton_self _) showing
  rw [List.mem_singleton.mp emitted]
  exact distinct last showing

end Until

section View
variable {S' : Type} {step' : Step S' L E} {view : S → S'}

def Taken.map (view : S → S') (taken : Taken S L E) : Taken S' L E :=
  ⟨view taken.before, taken.label, taken.events⟩

@[simp] theorem trace_map (steps : List (Taken S L E)) :
    trace (steps.map (Taken.map view)) = trace steps := by
  simp [trace, Taken.map, List.flatMap_map]

/-- A step function that moves the views of states as another one moves the states has its runs. -/
theorem Run.map
    (follows : ∀ state label, step' (view state) label = (step state label).map (Prod.map view id))
    (run : Run step start steps final) :
    Run step' (view start) (steps.map (Taken.map view)) (view final) := by
  induction run with
  | nil => exact .nil
  | snoc _ stepped ih =>
      rw [List.map_append]
      exact .snoc ih (by rw [follows, stepped]; rfl)

theorem Run.of_map
    (follows : ∀ state label, step' (view state) label = (step state label).map (Prod.map view id))
    {steps' : List (Taken S' L E)} {final' : S'} (run : Run step' (view start) steps' final') :
    ∃ steps final, Run step start steps final ∧ steps' = steps.map (Taken.map view) ∧
      final' = view final := by
  induction run with
  | nil => exact ⟨[], start, .nil, rfl, rfl⟩
  | snoc _ stepped ih =>
      obtain ⟨steps, middle, run, rfl, rfl⟩ := ih
      rw [follows, Option.map_eq_some_iff] at stepped
      obtain ⟨⟨final, events⟩, stepped, same⟩ := stepped
      cases same
      refine ⟨_, final, .snoc run stepped, ?_, rfl⟩
      rw [List.map_append]
      rfl

end View

section Relabel
variable {L' : Type} {step' : Step S L' E} {translate : L → L'}

def Taken.relabel (translate : L → L') (taken : Taken S L E) : Taken S L' E :=
  ⟨taken.before, translate taken.label, taken.events⟩

@[simp] theorem trace_relabel (steps : List (Taken S L E)) :
    trace (steps.map (Taken.relabel translate)) = trace steps := by
  simp [trace, Taken.relabel, List.flatMap_map]

theorem Run.relabel (follows : ∀ state label, step state label = step' state (translate label))
    (run : Run step start steps final) : Run step' start (steps.map (Taken.relabel translate)) final := by
  induction run with
  | nil => exact .nil
  | snoc _ stepped ih =>
      rw [List.map_append]
      exact .snoc ih (by rw [← follows, stepped])

end Relabel

/-- The run that takes the given labels in order, if each of them can be taken. -/
def exec (step : Step S L E) : S → List L → Option (List (Taken S L E) × S)
  | state, [] => some ([], state)
  | state, label :: labels => do
      let (next, events) ← step state label
      let (steps, final) ← exec step next labels
      return (⟨state, label, events⟩ :: steps, final)

theorem exec_run {labels : List L} (executed : exec step start labels = some (steps, final)) :
    Run step start steps final := by
  induction labels generalizing start steps with
  | nil =>
      simp only [exec, Option.some.injEq, Prod.mk.injEq] at executed
      obtain ⟨rfl, rfl⟩ := executed
      exact .nil
  | cons label labels ih =>
      simp only [exec, Option.bind_eq_bind, Option.pure_def, Option.bind_eq_some_iff,
        Option.some.injEq, Prod.mk.injEq, Prod.exists] at executed
      obtain ⟨next, events, stepped, rest, last, tail, rfl, rfl⟩ := executed
      exact (Run.single stepped).append (ih tail)

/-- A run whose labels are given is looked at by computing it. -/
theorem exists_run_of_exec {labels : List L} {check : List (Taken S L E) × S → Bool}
    (checked : (exec step start labels).any check = true) :
    ∃ steps final, Run step start steps final ∧ check (steps, final) = true := by
  obtain ⟨⟨steps, final⟩, executed, holds⟩ := (Option.any_eq_true _ _).mp checked
  exact ⟨steps, final, exec_run executed, holds⟩

section Total
variable {O : Type} (apply : S → O → S)

/-- An invariant that a step keeps exactly when its guard holds is true of every state of a
sequence of steps if and only if every guard along it holds. -/
theorem forall_prefix_iff {holds : S → Prop} {guard : S → O → Prop}
    (exact_step : ∀ state op, holds state → (holds (apply state op) ↔ guard state op))
    {state : S} (initially : holds state) (ops : List O) :
    (∀ past, past <+: ops → holds (past.foldl apply state)) ↔
      ∀ past op rest, ops = past ++ op :: rest → guard (past.foldl apply state) op := by
  constructor
  · rintro always past op rest rfl
    have before := always past (List.prefix_append _ _)
    have after := always (past ++ [op]) ⟨rest, by simp⟩
    rw [List.foldl_append] at after
    exact (exact_step _ op before).mp after
  · intro guarded past
    induction past using List.reverseRecOn with
    | nil => exact fun _ => initially
    | append_singleton past op ih =>
        rintro ⟨rest, rfl⟩
        rw [List.foldl_append]
        refine (exact_step _ op (ih ⟨[op] ++ rest, by simp⟩)).mpr (guarded past op rest ?_)
        simp

end Total

end Library.Runs
