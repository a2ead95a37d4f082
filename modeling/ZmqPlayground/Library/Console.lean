import Mathlib.Data.List.TakeWhile
import Mathlib.Logic.Function.Iterate
import ZmqPlayground.Library.Lines

/-! A loop that reads lines, leaves on one of them and acts on all others.

It does not ask whether a line could be read. A line that could not is empty.
-/

set_option autoImplicit false

namespace Library

open Library.Lines

/-- What such a loop does. To act on a line may end the program, and then the loop with it. -/
structure Console (A E : Type) where
  newline : A
  quit : List A
  act : List A → Option E
  leave : List E

namespace Console

variable {A E : Type}

inductive State (A E : Type) where
  | reading (stream : InStream A) (done : List E)
  | left (done : List E)
  | failed (done : List E)

variable [DecidableEq A]

/-- One turn of the loop; the string that is read into is a new one each time. -/
def turn (console : Console A E) : State A E → State A E
  | .reading stream done =>
      let (line, stream) := stream.getline console.newline []
      if line = console.quit then .left (done ++ console.leave)
      else match console.act line with
        | some event => .reading stream (done ++ [event])
        | none => .failed done
  | .left done => .left done
  | .failed done => .failed done

def start (text : List A) : State A E := .reading (.fresh text) []

variable (console : Console A E)

def Leaves (state : State A E) (events : List E) : Prop :=
  ∃ turns, console.turn^[turns] state = .left events

def reads (newline : A) : ℕ → InStream A → List (List A)
  | 0, _ => []
  | count + 1, stream =>
      let (line, stream) := stream.getline newline []
      line :: reads newline count stream

def entered (text : List A) : List (List A) := (pieces console.newline text).takeWhile (· ≠ console.quit)

/-- The loop is left in the end, and has acted once on every line before. -/
def Stops (text : List A) : Prop :=
  ∃ events, console.Leaves (start text) (events ++ console.leave) ∧
    (console.entered text).map console.act = events.map some

variable {console} {stream : InStream A} {done events : List E}

theorem leaves_reading_iff :
    console.Leaves (.reading stream done) events ↔ console.Leaves (console.turn (.reading stream done)) events := by
  constructor
  · rintro ⟨turns, left⟩
    cases turns with
    | zero => cases left
    | succ turns => exact ⟨turns, left⟩
  · rintro ⟨turns, left⟩
    exact ⟨turns + 1, left⟩

theorem leaves_left_iff : console.Leaves (.left done) events ↔ events = done := by
  have stays (turns : ℕ) : console.turn^[turns] (.left done) = .left done := Function.iterate_fixed rfl turns
  constructor
  · rintro ⟨turns, left⟩
    rw [stays, State.left.injEq] at left
    exact left.symm
  · rintro rfl
    exact ⟨0, rfl⟩

theorem not_leaves_failed : ¬ console.Leaves (.failed done) events := by
  rintro ⟨turns, left⟩
  rw [Function.iterate_fixed rfl] at left
  cases left

theorem turn_reading {line : List A} {rest : InStream A}
    (read : stream.getline console.newline [] = (line, rest)) :
    console.turn (.reading stream done) =
      if line = console.quit then .left (done ++ console.leave)
      else match console.act line with
        | some event => .reading rest (done ++ [event])
        | none => .failed done := by
  rw [turn, read]

theorem leaves_read_iff {line : List A} {rest : InStream A}
    (read : stream.getline console.newline [] = (line, rest)) :
    console.Leaves (.reading stream done) events ↔
      line = console.quit ∧ events = done ++ console.leave ∨
        line ≠ console.quit ∧ ∃ event, console.act line = some event ∧
          console.Leaves (.reading rest (done ++ [event])) events := by
  rw [leaves_reading_iff, turn_reading read]
  by_cases quit : line = console.quit
  · rw [if_pos quit, leaves_left_iff]
    simp [quit]
  · rw [if_neg quit]
    cases acted : console.act line with
    | none => simp [quit, not_leaves_failed]
    | some event => simp [quit]

/-- The loop passes all lines in front of the one it is left on. -/
def Passes (console : Console A E) (lines : List (List A)) (done events : List E) : Prop :=
  console.quit ∈ lines ∧ ∃ more, events = done ++ more ++ console.leave ∧
    (lines.takeWhile (· ≠ console.quit)).map console.act = more.map some

theorem not_passes_nil : ¬ console.Passes [] done events := by
  rintro ⟨none, _⟩
  cases none

theorem passes_cons_iff (line : List A) (lines : List (List A)) :
    console.Passes (line :: lines) done events ↔
      line = console.quit ∧ events = done ++ console.leave ∨
        line ≠ console.quit ∧ ∃ event, console.act line = some event ∧
          console.Passes lines (done ++ [event]) events := by
  unfold Passes
  by_cases quit : line = console.quit
  · simp [quit]
  · rw [List.takeWhile_cons_of_pos (by simpa using quit), List.map_cons, List.mem_cons]
    simp only [Ne.symm quit, quit, false_or, false_and, not_false_eq_true, ne_eq, true_and]
    constructor
    · rintro ⟨member, more, rfl, acted⟩
      cases more with
      | nil => cases acted
      | cons event more =>
          rw [List.map_cons, List.cons.injEq] at acted
          exact ⟨event, acted.1, member, more, by simp, acted.2⟩
    · rintro ⟨event, acted, member, more, rfl, rest⟩
      exact ⟨member, event :: more, by simp, by rw [acted, rest, List.map_cons]⟩

omit [DecidableEq A] in
theorem map_eq_map_some {lines : List (List A)} (acted : ∀ line ∈ lines, (console.act line).isSome) :
    ∃ events : List E, lines.map console.act = events.map some := by
  induction lines with
  | nil => exact ⟨[], rfl⟩
  | cons line lines ih =>
      obtain ⟨event, acts⟩ := Option.isSome_iff_exists.mp (acted line List.mem_cons_self)
      obtain ⟨events, rest⟩ := ih fun other member => acted other (List.mem_cons_of_mem _ member)
      exact ⟨event :: events, by rw [List.map_cons, List.map_cons, acts, rest]⟩

theorem reads_ended {newline : A} (count : ℕ) (rest : List A) (fail : Bool) :
    reads newline count ⟨rest, true, fail⟩ = List.replicate count [] := by
  induction count generalizing fail with
  | zero => rfl
  | succ count ih =>
      rw [reads, getline_ended]
      exact congrArg (List.cons []) (ih true)

theorem reads_fresh (newline : A) (text : List A) {count blanks : ℕ} (enough : count ≤ blanks) :
    reads newline count (.fresh text) = (pieces newline text ++ List.replicate blanks []).take count := by
  induction text using piece_induction newline generalizing count with
  | nil =>
      cases count with
      | zero => rfl
      | succ count =>
          rw [reads, getline_nil, pieces_nil, List.nil_append, List.take_replicate, Nat.min_eq_left enough,
            List.replicate_succ]
          exact congrArg (List.cons []) (reads_ended count [] true)
  | last line clean some =>
      cases count with
      | zero => rfl
      | succ count =>
          rw [reads, getline_last clean some, pieces_last clean some, List.singleton_append, List.take_succ_cons,
            List.take_replicate, Nat.min_eq_left (by omega)]
          exact congrArg (List.cons line) (reads_ended count [] false)
  | more line rest clean ih =>
      cases count with
      | zero => rfl
      | succ count =>
          rw [reads, getline_append clean, pieces_append clean, List.cons_append, List.take_succ_cons]
          exact congrArg (List.cons line) (ih (by omega))

theorem turns_reads (acts : ∀ line, (console.act line).isSome) (turns : ℕ) (stream : InStream A)
    (done : List E) (quitless : console.quit ∉ reads console.newline turns stream) :
    ∃ rest events, console.turn^[turns] (.reading stream done) = .reading rest (done ++ events) ∧
      events.map some = (reads console.newline turns stream).map console.act := by
  induction turns generalizing stream done with
  | zero => exact ⟨stream, [], by simp, rfl⟩
  | succ turns ih =>
      obtain ⟨line, next, read⟩ : ∃ line next, stream.getline console.newline [] = (line, next) :=
        ⟨_, _, rfl⟩
      simp only [reads, read, List.mem_cons, not_or] at quitless
      obtain ⟨event, acted⟩ := Option.isSome_iff_exists.mp (acts line)
      obtain ⟨rest, events, turned, same⟩ := ih next (done ++ [event]) quitless.2
      refine ⟨rest, event :: events, ?_, ?_⟩
      · rw [Function.iterate_succ_apply, turn_reading read, if_neg (Ne.symm quitless.1), acted]
        simpa using turned
      · simp only [reads, read, List.map_cons, acted, same]

variable (nonempty : console.quit ≠ [])

include nonempty

theorem not_leaves_ended (rest : List A) (fail : Bool) :
    ¬ console.Leaves (.reading ⟨rest, true, fail⟩ done) events := by
  -- Once the end of the stream has been seen, every line is empty.
  rintro ⟨turns, left⟩
  -- On the turns; the first of them may still set a state bit.
  induction turns generalizing fail done with
  | zero => cases left
  | succ turns ih =>
      rw [Function.iterate_succ_apply, turn_reading (getline_ended rest fail []), if_neg (Ne.symm nonempty)] at left
      cases acted : console.act [] with
      | some event =>
          rw [acted] at left
          exact ih true left
      | none =>
          rw [acted] at left
          exact not_leaves_failed ⟨turns, left⟩

theorem leaves_fresh_iff (text : List A) :
    console.Leaves (.reading (.fresh text) done) events ↔
      console.Passes (pieces console.newline text) done events := by
  induction text using piece_induction console.newline generalizing done with
  | nil =>
      -- The one read fails, and the empty line is not the one to leave on.
      rw [leaves_read_iff (getline_nil []), pieces_nil]
      simp [Ne.symm nonempty, not_leaves_ended nonempty, not_passes_nil]
  | last line clean some =>
      -- The line ends without a newline; the end has been seen with it.
      rw [leaves_read_iff (getline_last clean some []), pieces_last clean some, passes_cons_iff]
      simp [not_leaves_ended nonempty, not_passes_nil]
  | more line rest clean ih =>
      rw [leaves_read_iff (getline_append clean rest []), pieces_append clean, passes_cons_iff]
      simp only [ih]

theorem stops_iff (text : List A) :
    console.Stops text ↔
      console.quit ∈ pieces console.newline text ∧
        ∀ line ∈ console.entered text, (console.act line).isSome := by
  unfold Stops start
  constructor
  · rintro ⟨events, leaves, acted⟩
    obtain ⟨member, _⟩ := (leaves_fresh_iff nonempty text).mp leaves
    apply And.intro member
    intro line entered
    have some_event : console.act line ∈ events.map some := acted ▸ List.mem_map_of_mem entered
    obtain ⟨event, _, same⟩ := List.mem_map.mp some_event
    exact Option.isSome_iff_exists.mpr ⟨event, same.symm⟩
  · rintro ⟨member, acted⟩
    obtain ⟨events, all⟩ := map_eq_map_some acted
    exact ⟨events, (leaves_fresh_iff nonempty text).mpr ⟨member, events, rfl, all⟩, all⟩

/-- Without a line to leave on, the loop acts on the lines of the text and then on empty ones, as many as
it is given turns. -/
theorem turns_without_quit (acts : ∀ line, (console.act line).isSome) {text : List A}
    (quitless : console.quit ∉ pieces console.newline text) (turns : ℕ) :
    ∃ rest events, console.turn^[turns] (start text) = .reading rest events ∧
      events.map some = ((pieces console.newline text ++ List.replicate turns []).take turns).map console.act := by
  have lines := reads_fresh console.newline text (Nat.le_refl turns)
  have unread : console.quit ∉ reads console.newline turns (.fresh text) := by
    intro member
    rw [lines] at member
    rcases List.mem_append.mp (List.mem_of_mem_take member) with early | late
    · exact quitless early
    · exact nonempty (List.eq_of_mem_replicate late)
  obtain ⟨rest, events, turned, same⟩ := turns_reads acts turns (.fresh text) [] unread
  exact ⟨rest, events, turned, lines ▸ same⟩

omit nonempty

section Commands
variable {C : Type}

def Enters (console : Console A E) (event : E) : Prop :=
  ∃ line, console.newline ∉ line ∧ line ≠ console.quit ∧ console.act line = some event

/-- There is a text on which the loop performs some commands, on any number of lines, and is left. -/
def Performs (console : Console A (List C)) (commands : List C) : Prop :=
  ∃ text events, console.Leaves (start text) (events ++ console.leave) ∧ events.flatten = commands

variable {console : Console A (List C)}

theorem enters_of_leaves (nonempty : console.quit ≠ []) {text : List A} {events : List (List C)}
    (leaves : console.Leaves (start text) (events ++ console.leave)) : ∀ event ∈ events, console.Enters event := by
  obtain ⟨_, more, same, acted⟩ := (leaves_fresh_iff nonempty text).mp leaves
  obtain rfl : events = more := List.append_cancel_right (same.trans (by rw [List.nil_append]))
  intro event member
  have caused : some event ∈ events.map some := List.mem_map_of_mem member
  rw [← acted] at caused
  obtain ⟨line, entered, caused⟩ := List.mem_map.mp caused
  have other := List.mem_takeWhile_imp entered
  exact ⟨line, not_mem_of_mem_pieces (List.takeWhile_subset _ entered), by simpa using other, caused⟩

theorem exists_leaves (nonempty : console.quit ≠ []) (clean : console.newline ∉ console.quit) {events : List (List C)}
    (enters : ∀ event ∈ events, console.Enters event) :
    ∃ text, console.Leaves (start text) (events ++ console.leave) := by
  have lines : ∃ lines : List (List A), (∀ line ∈ lines, console.newline ∉ line ∧ line ≠ console.quit) ∧
      lines.map console.act = events.map some := by
    induction events with
    | nil => exact ⟨[], by simp, rfl⟩
    | cons event events ih =>
        rw [List.forall_mem_cons] at enters
        obtain ⟨line, one, other, acts⟩ := enters.1
        obtain ⟨lines, good, acted⟩ := ih enters.2
        exact ⟨line :: lines, List.forall_mem_cons.mpr ⟨⟨one, other⟩, good⟩, by rw [List.map_cons, acts, acted]; rfl⟩
  obtain ⟨lines, good, acted⟩ := lines
  refine ⟨(lines ++ [console.quit]).flatMap (· ++ [console.newline]), (leaves_fresh_iff nonempty _).mpr ?_⟩
  have single : ∀ line ∈ lines ++ [console.quit], console.newline ∉ line := by
    simpa [or_imp, forall_and, clean] using fun line member => (good line member).1
  have stops : (lines ++ [console.quit]).takeWhile (· ≠ console.quit) = lines := by
    rw [List.takeWhile_append_of_pos fun line member => by simpa using (good line member).2]
    simp
  rw [pieces_terminated single]
  exact ⟨by simp, events, rfl, by rw [stops, acted]⟩

/-- The commands that can be performed, in any number and any order, are those that can be typed. -/
theorem performs_iff (nonempty : console.quit ≠ []) (clean : console.newline ∉ console.quit) {Typeable : C → Prop}
    (sound : ∀ event, console.Enters event → ∀ command ∈ event, Typeable command)
    (complete : ∀ command, Typeable command → console.Enters [command]) (commands : List C) :
    console.Performs commands ↔ ∀ command ∈ commands, Typeable command := by
  constructor
  · rintro ⟨text, events, leaves, rfl⟩ command member
    obtain ⟨event, caused, inside⟩ := List.mem_flatten.mp member
    exact sound event (enters_of_leaves nonempty leaves event caused) command inside
  · intro typeable
    have enters : ∀ event ∈ commands.map fun command => [command], console.Enters event := by
      intro event member
      obtain ⟨command, listed, rfl⟩ := List.mem_map.mp member
      exact complete command (typeable command listed)
    obtain ⟨text, leaves⟩ := exists_leaves nonempty clean enters
    exact ⟨text, commands.map fun command => [command], leaves, List.flatMap_singleton' commands⟩

end Commands

end Console

end Library
