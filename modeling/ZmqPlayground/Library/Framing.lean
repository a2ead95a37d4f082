import Mathlib.Data.List.Chain
import Mathlib.Logic.Function.Basic
import ZmqPlayground.Library.Runs

/-! Messages of several frames on a wire that several threads write to.

A thread sends its messages frame by frame, and the frames of other threads may come
between. What arrives is taken apart again by a mark on the last frame of a message.
-/

set_option autoImplicit false

namespace Library.Framing

open Library.Runs

/-- A frame as it is sent, with whether its message goes on. -/
structure Part (F : Type) where
  frame : F
  more : Bool
  deriving DecidableEq

section Messages
variable {F : Type}

def parts : List F → List (Part F)
  | [] => []
  | [frame] => [⟨frame, false⟩]
  | frame :: next :: rest => ⟨frame, true⟩ :: parts (next :: rest)

theorem parts_ne_nil {message : List F} (nonempty : message ≠ []) : parts message ≠ [] := by
  match message with
  | [_] | _ :: _ :: _ => simp [parts]

/-- The messages that a receiver makes of the frames, and what it has of one that is not complete. -/
def assemble (begun : List F) : List (Part F) → List (List F) × List F
  | [] => ([], begun)
  | ⟨frame, true⟩ :: rest => assemble (begun ++ [frame]) rest
  | ⟨frame, false⟩ :: rest =>
      let (messages, left) := assemble [] rest
      ((begun ++ [frame]) :: messages, left)

theorem assemble_parts {message : List F} (nonempty : message ≠ []) (begun : List F) (rest : List (Part F)) :
    assemble begun (parts message ++ rest) = ((begun ++ message) :: (assemble [] rest).1, (assemble [] rest).2) := by
  induction message generalizing begun with
  | nil => exact absurd rfl nonempty
  | cons frame message ih =>
      cases message with
      | nil => rfl
      | cons next message =>
          rw [parts, List.cons_append, assemble, ih (List.cons_ne_nil _ _)]
          simp

theorem assemble_flatMap_parts {messages : List (List F)} (nonempty : ∀ message ∈ messages, message ≠ []) :
    assemble [] (messages.flatMap parts) = (messages, []) := by
  induction messages with
  | nil => rfl
  | cons message rest ih =>
      rw [List.flatMap_cons, assemble_parts (nonempty message List.mem_cons_self),
        ih fun other member => nonempty other (List.mem_cons_of_mem _ member), List.nil_append]

end Messages

section Threads
variable {T F A : Type} [DecidableEq T]

def own (thread : T) (items : List (T × A)) : List A :=
  (items.filter fun item => item.1 = thread).map Prod.snd

@[simp] theorem own_nil (thread : T) : own thread ([] : List (T × A)) = [] := rfl

@[simp] theorem own_append (thread : T) (first rest : List (T × A)) :
    own thread (first ++ rest) = own thread first ++ own thread rest := by
  simp [own]

theorem own_singleton (thread : T) (item : T × A) :
    own thread [item] = if item.1 = thread then [item.2] else [] := by
  rw [own, List.filter_cons]
  split <;> simp_all

theorem own_map (thread other : T) (items : List A) :
    own thread (items.map fun item => (other, item)) = if other = thread then items else [] := by
  rw [own, List.filter_map, List.map_map]
  split
  · rename_i same
    simp [same, Function.comp_def]
  · rename_i different
    simp [different, Function.comp_def]

/-- A message that goes on is followed by a frame of the same thread. -/
def Adjacent (sent : List (T × Part F)) : Prop :=
  sent.IsChain fun first second => first.2.more = true → second.1 = first.1

instance (sent : List (T × Part F)) : Decidable (Adjacent sent) :=
  inferInstanceAs (Decidable (List.IsChain _ sent))

/-- The last frame of a message has not been sent. -/
def lastMore (sent : List (Part F)) : Bool :=
  match sent.getLast? with
  | some part => part.more
  | none => false

@[simp] theorem lastMore_snoc (sent : List (Part F)) (part : Part F) : lastMore (sent ++ [part]) = part.more := by
  rw [lastMore, List.getLast?_concat]

omit [DecidableEq T] in
theorem adjacent_snoc {sent : List (T × Part F)} {last : T × Part F} :
    Adjacent (sent ++ [last]) ↔
      Adjacent sent ∧ ∀ before ∈ sent.getLast?, before.2.more = true → last.1 = before.1 := by
  rw [Adjacent, List.isChain_append]
  simp [Adjacent]

/-- Among adjacent frames, the only message that goes on is that of the last frame. -/
theorem lastMore_own_iff {sent : List (T × Part F)} (adjacent : Adjacent sent) (thread : T) :
    lastMore (own thread sent) = true ↔ ∃ last ∈ sent.getLast?, last.1 = thread ∧ last.2.more = true := by
  induction sent using List.reverseRecOn with
  | nil => simp [lastMore]
  | append_singleton sent last ih =>
      obtain ⟨before, follows⟩ := adjacent_snoc.mp adjacent
      rw [own_append, own_singleton]
      by_cases mine : last.1 = thread
      · simp [mine]
      · simp only [mine, if_false, List.append_nil, ih before, List.getLast?_concat, Option.mem_def,
          Option.some.injEq, exists_eq_left', false_and, iff_false]
        -- Had the thread been sending the message before, the last frame would be its own.
        rintro ⟨earlier, isLast, same, more⟩
        exact mine ((follows earlier isLast more).trans same)

/-- The frames of whole messages, one message after the other. -/
def whole (done : List (T × List F)) : List (T × Part F) :=
  done.flatMap fun (thread, message) => (parts message).map fun part => (thread, part)

omit [DecidableEq T] in
theorem map_snd_whole (done : List (T × List F)) :
    (whole done).map Prod.snd = (done.map Prod.snd).flatMap parts := by
  rw [whole, List.map_flatMap, List.flatMap_map]
  simp [Function.comp_def]

theorem eq_message_append {message : List F} (nonempty : message ≠ []) {thread : T} {sent : List (T × Part F)}
    {tail : List (Part F)} (adjacent : Adjacent sent) (mine : ∀ first ∈ sent.head?, first.1 = thread)
    (frames : own thread sent = parts message ++ tail) :
    ∃ rest, sent = (parts message).map (fun part => (thread, part)) ++ rest := by
  induction message generalizing sent with
  | nil => exact absurd rfl nonempty
  | cons frame message ih =>
      cases sent with
      | nil => exact absurd frames.symm (by simp [parts_ne_nil])
      | cons first rest =>
          obtain ⟨sender, part⟩ := first
          obtain rfl : sender = thread := mine _ rfl
          rw [show (sender, part) :: rest = [(sender, part)] ++ rest from rfl, own_append, own_singleton,
            if_pos rfl] at frames
          cases message with
          | nil =>
              obtain ⟨rfl, -⟩ := List.cons.inj frames
              exact ⟨rest, rfl⟩
          | cons next message =>
              obtain ⟨rfl, others⟩ := List.cons.inj frames
              obtain ⟨follows, chain⟩ := List.isChain_cons.mp adjacent
              obtain ⟨later, rfl⟩ := ih (List.cons_ne_nil _ _) chain (fun second isNext => follows second isNext rfl)
                others
              exact ⟨later, rfl⟩

theorem exists_whole {sent : List (T × Part F)} (adjacent : Adjacent sent) {asked : T → List (List F)}
    (nonempty : ∀ thread, ∀ message ∈ asked thread, message ≠ [])
    (frames : ∀ thread, own thread sent = (asked thread).flatMap parts) :
    ∃ done, sent = whole done ∧ ∀ thread, own thread done = asked thread := by
  generalize size : sent.length = n
  induction n using Nat.strong_induction_on generalizing sent asked with
  | _ n ih =>
      cases sent with
      | nil =>
          refine ⟨[], rfl, fun thread => ?_⟩
          cases messages : asked thread with
          | nil => rfl
          | cons message rest =>
              have some_frame := parts_ne_nil (nonempty thread message (by simp [messages]))
              have none := frames thread
              rw [messages, List.flatMap_cons] at none
              exact absurd (List.append_eq_nil_iff.mp none.symm).1 some_frame
      | cons first later =>
          obtain ⟨thread, part⟩ := first
          have own_frames := frames thread
          cases messages : asked thread with
          | nil => simp [messages, own] at own_frames
          | cons message rest =>
              rw [messages, List.flatMap_cons] at own_frames
              have some_frame := nonempty thread message (by simp [messages])
              obtain ⟨others, split⟩ := eq_message_append some_frame adjacent (by simp) own_frames
              have shorter : others.length < n := by
                have positive := List.length_pos_iff.mpr (parts_ne_nil some_frame)
                rw [← size, split, List.length_append, List.length_map]
                omega
              rw [split] at adjacent frames
              -- The message is taken off the thread's list, and the rest is as before.
              have left : ∀ other, own other others =
                  (Function.update asked thread rest other).flatMap parts := by
                intro other
                have before := frames other
                rw [own_append, own_map] at before
                by_cases same : other = thread
                · subst same
                  rw [if_pos rfl, messages, List.flatMap_cons] at before
                  rw [Function.update_self]
                  exact List.append_cancel_left before
                · rw [if_neg (Ne.symm same), List.nil_append] at before
                  rw [Function.update_of_ne same, before]
              have fewer : ∀ other, ∀ message ∈ Function.update asked thread rest other, message ≠ [] := by
                intro other message member
                by_cases same : other = thread
                · subst same
                  rw [Function.update_self] at member
                  exact nonempty other message (by simp [messages, member])
                · rw [Function.update_of_ne same] at member
                  exact nonempty other message member
              obtain ⟨done, rfl, each⟩ := ih _ shorter adjacent.right_of_append fewer left rfl
              refine ⟨(thread, message) :: done, split, fun other => ?_⟩
              rw [show (thread, message) :: done = [(thread, message)] ++ done from rfl, own_append,
                own_singleton, each]
              by_cases same : other = thread
              · subst same
                rw [if_pos rfl, Function.update_self, messages]
                rfl
              · rw [if_neg (Ne.symm same), Function.update_of_ne same, List.nil_append]

omit [DecidableEq T] in
theorem adjacent_message_append {message : List F} {thread : T} {rest : List (T × Part F)} (adjacent : Adjacent rest) :
    Adjacent ((parts message).map (fun part => (thread, part)) ++ rest) := by
  induction message with
  | nil => exact adjacent
  | cons frame message ih =>
      cases message with
      | nil => exact List.isChain_cons.mpr ⟨by simp, adjacent⟩
      | cons next message =>
          apply List.isChain_cons.mpr
          refine ⟨fun second isNext _ => ?_, ih⟩
          -- The next frame is the thread's own, as the message is not at its end.
          obtain ⟨first, others, same⟩ := List.exists_cons_of_ne_nil (parts_ne_nil (List.cons_ne_nil next message))
          rw [same] at isNext
          obtain rfl := Option.some.inj isNext
          rfl

omit [DecidableEq T] in
theorem adjacent_whole (done : List (T × List F)) : Adjacent (whole done) := by
  induction done with
  | nil => exact .nil
  | cons message done ih => exact adjacent_message_append ih

theorem perm_of_own {first second : List (T × A)} (same : ∀ thread, own thread first = own thread second) :
    first.Perm second := by
  classical
  have count_own : ∀ (items : List (T × A)) (item : T × A), items.count item = (own item.1 items).count item.2 := by
    intro items item
    induction items with
    | nil => rfl
    | cons head rest ih =>
        rw [show head :: rest = [head] ++ rest from rfl, List.count_append, own_append, List.count_append, ih,
          own_singleton]
        congr 1
        by_cases thread : head.1 = item.1
        · simp [thread, List.count_singleton, Prod.ext_iff]
        · simp [thread, Prod.ext_iff]
  apply List.perm_iff_count.mpr
  intro item
  rw [count_own, count_own, same]

end Threads

/-- The frames each thread has still to send, whether it is within a message, and what has been sent. -/
structure Wire (T F : Type) where
  pending : T → List (Part F)
  within : T → Bool
  sent : List (T × Part F)

inductive Label (T F : Type) where
  | begins (thread : T) (messages : List (List F))
  | sends (thread : T)

section Runs
variable {T F : Type} [DecidableEq T]

def initial : Wire T F := ⟨fun _ => [], fun _ => false, []⟩

/-- A thread takes up further messages when it has sent those it had. -/
def step : Step (Wire T F) (Label T F) (T × List F) := fun wire label =>
  match label with
  | .begins thread messages => match wire.pending thread with
      | [] => some ({ wire with pending := Function.update wire.pending thread (messages.flatMap parts) },
          messages.map fun message => (thread, message))
      | _ :: _ => none
  | .sends thread => match wire.pending thread with
      | part :: rest => some ({
          pending := Function.update wire.pending thread rest
          within := Function.update wire.within thread part.more
          sent := wire.sent ++ [(thread, part)] }, [])
      | [] => none

/-- A thread sends a frame while another one is within a message. -/
def Intrudes (taken : Taken (Wire T F) (Label T F) (T × List F)) : Prop :=
  match taken.label with
  | .sends thread => ∃ other, other ≠ thread ∧ taken.before.within other = true
  | .begins _ _ => False

structure Kept (asked : List (T × List F)) (wire : Wire T F) : Prop where
  frames : ∀ thread, own thread wire.sent ++ wire.pending thread = (own thread asked).flatMap parts
  within : ∀ thread, wire.within thread = lastMore (own thread wire.sent)

variable {before after : Wire T F} {label : Label T F} {asked events : List (T × List F)}

theorem step_kept (kept : Kept asked before) (stepped : step before label = some (after, events)) :
    Kept (asked ++ events) after := by
  cases label with
  | begins thread messages =>
      simp only [step] at stepped
      split at stepped <;> cases stepped
      rename_i idle
      refine ⟨fun other => ?_, kept.within⟩
      have frames := kept.frames other
      rw [own_append, own_map, List.flatMap_append]
      by_cases same : other = thread
      · subst same
        rw [idle, List.append_nil] at frames
        simp [frames]
      · simp [same, Ne.symm same, frames]
  | sends thread =>
      simp only [step] at stepped
      split at stepped <;> cases stepped
      rename_i part rest next
      rw [List.append_nil]
      constructor
      · intro other
        rw [← kept.frames other, own_append, own_singleton]
        by_cases same : other = thread
        · subst same
          simp [next]
        · simp [same, Ne.symm same]
      · intro other
        rw [own_append, own_singleton]
        by_cases same : other = thread
        · subst same
          simp
        · simp [same, Ne.symm same, kept.within]

theorem step_adjacent_iff (kept : Kept asked before) (stepped : step before label = some (after, events)) :
    Adjacent after.sent ↔ Adjacent before.sent ∧ ¬ Intrudes ⟨before, label, events⟩ := by
  cases label with
  | begins thread messages =>
      simp only [step] at stepped
      split at stepped <;> cases stepped
      simp [Intrudes]
  | sends thread =>
      simp only [step] at stepped
      split at stepped <;> cases stepped
      rw [adjacent_snoc]
      apply and_congr_right
      intro adjacent
      simp only [Intrudes, not_exists, not_and, Bool.not_eq_true]
      constructor
      · intro follows other different
        by_contra within
        rw [Bool.not_eq_false, kept.within, lastMore_own_iff adjacent] at within
        obtain ⟨last, isLast, rfl, more⟩ := within
        exact different (follows last isLast more).symm
      · intro quiet last isLast more
        by_contra different
        have within : before.within last.1 = true := by
          rw [kept.within, lastMore_own_iff adjacent]
          exact ⟨last, isLast, rfl, more⟩
        rw [quiet last.1 (Ne.symm different)] at within
        cases within

theorem initial_kept : Kept [] (initial : Wire T F) :=
  ⟨fun _ => rfl, fun _ => rfl⟩

variable {steps : List (Taken (Wire T F) (Label T F) (T × List F))} {final : Wire T F}

theorem run_adjacent_iff (run : Run step initial steps final) :
    Kept (trace steps) final ∧ (Adjacent final.sent ↔ ∀ taken ∈ steps, ¬ Intrudes taken) := by
  apply run.exactly (fun steps => Kept (trace steps)) (fun wire => Adjacent wire.sent) Intrudes
    ⟨initial_kept, .nil⟩
  intro past before label after events kept stepped
  rw [trace_append, trace_singleton]
  exact ⟨step_kept kept stepped, step_adjacent_iff kept stepped⟩

theorem lastMore_flatMap_parts (messages : List (List F)) : lastMore (messages.flatMap parts) = false := by
  have ends : ∀ message : List F, ∀ last ∈ (parts message).getLast?, last.more = false := by
    intro message
    induction message with
    | nil => simp [parts]
    | cons frame message ih =>
        cases message with
        | nil => simp [parts]
        | cons next message =>
            intro last isLast
            obtain ⟨first, others, same⟩ := List.exists_cons_of_ne_nil (parts_ne_nil (List.cons_ne_nil next message))
            rw [parts, same, List.getLast?_cons_cons, ← same] at isLast
            exact ih last isLast
  induction messages using List.reverseRecOn with
  | nil => rfl
  | append_singleton messages message ih =>
      rw [List.flatMap_append, List.flatMap_singleton, lastMore, List.getLast?_append]
      cases found : (parts message).getLast? with
      | some last => simpa using ends message last found
      | none => simpa [lastMore] using ih

theorem Kept.pending_of_within {wire : Wire T F} (kept : Kept asked wire) {thread : T}
    (within : wire.within thread = true) : wire.pending thread ≠ [] := by
  intro none
  have frames := kept.frames thread
  rw [none, List.append_nil] at frames
  rw [kept.within, frames, lastMore_flatMap_parts] at within
  cases within

/-- A thread begins only when no other one has frames to send. -/
def Waits (taken : Taken (Wire T F) (Label T F) (T × List F)) : Prop :=
  match taken.label with
  | .begins thread _ => ∀ other, other ≠ thread → taken.before.pending other = []
  | .sends _ => True

/-- Threads that wait for one another do not come between each other's frames. -/
theorem run_waiting (run : Run step initial steps final) (waits : ∀ taken ∈ steps, Waits taken) :
    ∀ taken ∈ steps, ¬ Intrudes taken := by
  let Alone (wire : Wire T F) : Prop :=
    ∀ first second, wire.pending first ≠ [] → wire.pending second ≠ [] → first = second
  have step_alone : ∀ before label (after : Wire T F) events, Alone before → Waits ⟨before, label, events⟩ →
      step before label = some (after, events) → Alone after := by
    intro before label after events alone waits stepped
    cases label with
    | begins thread messages =>
        simp only [step] at stepped
        split at stepped <;> cases stepped
        intro first second busy alsoBusy
        have only : ∀ other, Function.update before.pending thread (messages.flatMap parts) other ≠ [] →
            other = thread := by
          intro other busy
          by_contra different
          rw [Function.update_of_ne different] at busy
          exact busy (waits other different)
        rw [only first busy, only second alsoBusy]
    | sends thread =>
        simp only [step] at stepped
        split at stepped <;> cases stepped
        rename_i part rest next
        have before_busy : ∀ other, Function.update before.pending thread rest other ≠ [] →
            before.pending other ≠ [] := by
          intro other busy
          by_cases same : other = thread
          · rw [same, next]
            exact List.cons_ne_nil _ _
          · rwa [Function.update_of_ne same] at busy
        exact fun first second busy alsoBusy =>
          alone first second (before_busy first busy) (before_busy second alsoBusy)
  intro taken member intrudes
  obtain ⟨first, rest, after, rfl, front, stepped, -⟩ := run.reached member
  have alone := front.invariant Waits Alone (by simp [Alone, initial]) step_alone
    fun earlier present => waits earlier (by simp [present])
  have kept := (run_adjacent_iff front).1
  obtain ⟨before, label, events⟩ := taken
  cases label with
  | begins => exact intrudes
  | sends thread =>
      obtain ⟨other, different, within⟩ := intrudes
      simp only [step] at stepped
      split at stepped <;> cases stepped
      rename_i part rest next
      exact different (alone other thread (kept.pending_of_within within) (by simp [next]))

/-- All that was asked for has been sent message by message, and is received so. -/
def Grouped (asked : List (T × List F)) (sent : List (T × Part F)) : Prop :=
  ∃ done, sent = whole done ∧ (∀ thread, own thread done = own thread asked) ∧ done.Perm asked ∧
    assemble [] (sent.map Prod.snd) = (done.map Prod.snd, [])

/-- When every thread has sent what it was to send, it has been sent message by message exactly if no
thread has sent a frame while another one was within a message. -/
theorem run_grouped_iff (run : Run step initial steps final) (nonempty : ∀ message ∈ trace steps, message.2 ≠ [])
    (finished : ∀ thread, final.pending thread = []) :
    Grouped (trace steps) final.sent ↔ ∀ taken ∈ steps, ¬ Intrudes taken := by
  obtain ⟨kept, adjacent⟩ := run_adjacent_iff run
  rw [← adjacent]
  constructor
  · rintro ⟨done, sent, -⟩
    rw [sent]
    exact adjacent_whole done
  · intro adjacent
    have messages : ∀ thread, ∀ message ∈ own thread (trace steps), message ≠ [] := by
      intro thread message member
      obtain ⟨item, listed, rfl⟩ := List.mem_map.mp member
      exact nonempty item (List.mem_filter.mp listed).1
    have frames : ∀ thread, own thread final.sent = (own thread (trace steps)).flatMap parts := by
      intro thread
      rw [← kept.frames thread, finished, List.append_nil]
    obtain ⟨done, sent, each⟩ := exists_whole adjacent messages frames
    have perm := perm_of_own each
    refine ⟨done, sent, each, perm, ?_⟩
    rw [sent, map_snd_whole]
    apply assemble_flatMap_parts
    intro message member
    obtain ⟨item, listed, rfl⟩ := List.mem_map.mp member
    exact nonempty item (perm.subset listed)

end Runs

end Library.Framing
