import ZmqPlayground.Common.Instances
import ZmqPlayground.ConvStack.ConvStackMain
import ZmqPlayground.InprocStack.InprocStack

/-! The loops of the four programs that read their standard input.

What they ask of a stack or a client is taken to return; what ends a loop otherwise is an
exception of the parsing, or an access that is out of range.
-/

set_option autoImplicit false

namespace ZmqPlayground

open Library
open Library.Lines

namespace ZmqStackMain

inductive Command where
  | subscriptions
  | subscribe (topic : Str)
  | unsubscribe (topic : Str)
  | send (msg : Str)
  | publish (topics : List Str) (msg : Str)
  deriving DecidableEq

def command (cmds : List Str) (data : Str) : Lookups Str (List Command) := do
  if 1 ≤ cmds.length then
    if (← Lookups.get cmds 0) = "sub".toList then return [.subscribe data]
    else if (← Lookups.get cmds 0) = "unsub".toList then return [.unsubscribe data]
    else if (← Lookups.get cmds 0) = "send".toList then return [.send data]
    -- The words are taken to be topics.
    else return [.publish cmds data]
  else return []

def interactive : Str → Lookups Str (List Command) := promptLine .subscriptions command

def console : Console Char (List Command) where
  newline := '\n'
  quit := "quit".toList
  act line := (interactive line).value
  leave := []

/-- Every length that is relied on has been looked at. -/
theorem interactive_isSome (line : Str) : (interactive line).value.isSome := by
  rw [interactive, promptLine_isSome_iff]
  intro
  simp only [command, Lookups.value_ite, Lookups.value_bind]
  split
  · rename_i one
    rw [Lookups.value_get_of_lt one]
    simp only [Option.bind_some]
    split_ifs <;> rfl
  · rfl

end ZmqStackMain

namespace InprocStackMain

inductive Command where
  | subscribe (stack : Node) (topic : Str)
  | unsubscribe (stack : Node) (topic : Str)
  | publish (stack : Node) (topics : List Str) (msg : Str)
  | stop (stack : Node)
  deriving DecidableEq

def nodes : List Node := (List.finRange 4).map Node.stack ++ [.net .netA, .net .netB, .conv]

def command (node : Node) (cmds : List Str) (data : Str) : Lookups Str (List Command) := do
  if 1 ≤ cmds.length then
    if (← Lookups.get cmds 0) = "sub".toList then return [.subscribe node data]
    else if (← Lookups.get cmds 0) = "unsub".toList then return [.unsubscribe node data]
    else if cmds.length = 1 then return [.publish node [← Lookups.get cmds 0] data]
    else return [.publish node cmds data]
  else return []

/-- A command with the number of a stack in front, which is converted to a `size_t`. -/
def interactive (line : Str) : Lookups Str (Except ConversionError (List Command)) := do
  let parse := split line '|'
  if parse.length = 3 then
    match stoi (← Lookups.get parse 0) with
    | .error error => return .error error
    | .ok number =>
        -- A negative number becomes a large one.
        let stack := (number % 2 ^ 64).toNat
        if inside : stack < nodes.length then
          let data ← Lookups.get parse 2
          let cmds := split (← Lookups.get parse 1) ' '
          return .ok (← command nodes[stack] cmds data)
        else return .ok []
  else return .ok []

/-- An exception of the conversion is not caught. On `quit` every stack is stopped. -/
def console : Console Char (List Command) where
  newline := '\n'
  quit := "quit".toList
  act line := (interactive line).value.bind fun commands => commands.toOption
  leave := [nodes.map Command.stop]

/-- A line of three fields the first of which does not begin with a number of the type `int`. -/
def Unnumbered (line : Str) : Prop :=
  (split line '|').length = 3 ∧ (stoi (before '|' line)).toOption = none

theorem command_isSome (node : Node) (cmds : List Str) (data : Str) : (command node cmds data).value.isSome := by
  simp only [command, Lookups.value_ite, Lookups.value_bind]
  split
  · rename_i one
    rw [Lookups.value_get_of_lt one]
    simp only [Option.bind_some]
    split_ifs <;> rfl
  · rfl

theorem act_isSome_iff (line : Str) : (console.act line).isSome ↔ ¬ Unnumbered line := by
  unfold Unnumbered
  simp only [console, interactive, Lookups.value_ite, Lookups.value_bind]
  split
  · rename_i three
    have nonempty : line ≠ [] := length_pieces_pos_iff.mp (show 0 < (split line '|').length by omega)
    have first : (split line '|')[0]? = some (before '|' line) := by
      rw [split_eq, pieces_of_ne_nil nonempty, List.getElem?_cons_zero]
    rw [Lookups.value_get, first, Option.bind_some]
    cases converted : stoi (before '|' line) with
    | error error => simp [three, Except.toOption]
    | ok number =>
        simp only [three, Except.toOption, reduceCtorEq, and_false, not_false_eq_true, iff_true]
        split
        · rename_i inside
          simp only [Lookups.value_bind]
          rw [Lookups.value_get_of_lt (show 2 < _ by omega), Lookups.value_get_of_lt (show 1 < _ by omega)]
          simp only [Option.bind_some, Lookups.value_pure]
          obtain ⟨commands, given⟩ := Option.isSome_iff_exists.mp (command_isSome nodes[(number % 2 ^ 64).toNat]
            (split (split line '|')[1] ' ') (split line '|')[2])
          rw [given]
          rfl
        · rfl
  · rename_i other
    exact iff_of_true rfl fun both => other both.1

end InprocStackMain

/-- What `main` of the driver is started with. -/
structure NetDriver where
  name : Str
  size : UInt64
  deriving DecidableEq

namespace NetDriver

/-- The length of the filling of the longest message, as the unsigned difference comes out. -/
def fill (driver : NetDriver) : ℕ := (driver.size - (driver.name.length + 1).toUInt64).toNat

/-- The message of a line. A string that is too long for the memory or for its type throws. -/
def data (constructs : ℕ → Bool) (driver : NetDriver) (raw : Str) : Option Str :=
  if raw = "max".toList then
    if constructs driver.fill then some (driver.name ++ ':' :: List.replicate driver.fill 'X') else none
  else some (driver.name ++ ':' :: raw)

/-- Each line is sent as one message. -/
def console (constructs : ℕ → Bool) (driver : NetDriver) : Console Char Str where
  newline := '\n'
  quit := "quit".toList
  act := driver.data constructs
  leave := []

theorem data_isSome_iff (constructs : ℕ → Bool) (driver : NetDriver) (raw : Str) :
    (driver.data constructs raw).isSome ↔ (raw = "max".toList → constructs driver.fill = true) := by
  unfold data
  split
  · split <;> simp [*]
  · rename_i other
    exact iff_of_true rfl fun max => absurd max other

end NetDriver

/-- Each of the loops stops, having acted once on every line before the first `quit`, exactly if there is
such a line and acting on none before it ends the program. -/
theorem prompts_stop_iff (constructs : ℕ → Bool) (driver : NetDriver) (input : Str) :
    (ConvStackMain.console.Stops input ↔ "quit".toList ∈ split input '\n' ∧
        ∀ line ∈ (split input '\n').takeWhile (· ≠ "quit".toList), ¬ ConvStackMain.Misread line) ∧
      (ZmqStackMain.console.Stops input ↔ "quit".toList ∈ split input '\n') ∧
      (InprocStackMain.console.Stops input ↔ "quit".toList ∈ split input '\n' ∧
        ∀ line ∈ (split input '\n').takeWhile (· ≠ "quit".toList), ¬ InprocStackMain.Unnumbered line) ∧
      ((NetDriver.console constructs driver).Stops input ↔ "quit".toList ∈ split input '\n' ∧
        ("max".toList ∈ (split input '\n').takeWhile (· ≠ "quit".toList) → constructs driver.fill = true)) := by
  have nonempty : "quit".toList ≠ [] := by decide
  constructor
  · rw [Console.stops_iff nonempty]
    exact and_congr_right fun _ => forall₂_congr fun line _ => ConvStackMain.interactive_isSome_iff line
  · constructor
    · rw [Console.stops_iff nonempty]
      exact and_iff_left fun line _ => ZmqStackMain.interactive_isSome line
    · constructor
      · rw [Console.stops_iff nonempty]
        exact and_congr_right fun _ => forall₂_congr fun line _ => InprocStackMain.act_isSome_iff line
      · rw [Console.stops_iff nonempty]
        apply and_congr_right
        intro
        -- Only the line `max` asks for a string that may not be to be had.
        constructor
        · exact fun acted member => (NetDriver.data_isSome_iff constructs driver _).mp (acted _ member) rfl
        · intro fits line entered
          rw [show (NetDriver.console constructs driver).act = driver.data constructs from rfl,
            NetDriver.data_isSome_iff]
          rintro rfl
          exact fits entered

/-- Input that ends without `quit`, and the messages that the driver goes on sending. -/
theorem never_stops :
    ¬ ConvStackMain.console.Stops "list\n".toList ∧ ¬ ZmqStackMain.console.Stops "list\n".toList ∧
      ¬ InprocStackMain.console.Stops "list\n".toList ∧
      ¬ (NetDriver.console (fun _ => true) ⟨"udp-driver".toList, 1472⟩).Stops "list\n".toList ∧
      ∀ turns, ∃ rest sent,
        (NetDriver.console (fun _ => true) ⟨"udp-driver".toList, 1472⟩).turn^[turns]
          (Console.start "list\n".toList) = .reading rest sent ∧ sent.length = turns := by
  have nonempty : "quit".toList ≠ [] := by decide
  have quitless : "quit".toList ∉ pieces '\n' "list\n".toList := by decide +kernel
  have never {E : Type} (console : Console Char E) (newline : console.newline = '\n')
      (quit : console.quit = "quit".toList) : ¬ console.Stops "list\n".toList := by
    rw [Console.stops_iff (quit ▸ nonempty), newline, quit]
    exact fun stops => quitless stops.1
  refine ⟨never _ rfl rfl, never _ rfl rfl, never _ rfl rfl, never _ rfl rfl, fun turns => ?_⟩
  have acts (line : Str) : (NetDriver.data (fun _ => true) ⟨"udp-driver".toList, 1472⟩ line).isSome :=
    (NetDriver.data_isSome_iff _ _ line).mpr fun _ => rfl
  let console := NetDriver.console (fun _ => true) ⟨"udp-driver".toList, 1472⟩
  obtain ⟨rest, sent, turned, same⟩ := console.turns_without_quit nonempty acts quitless turns
  refine ⟨rest, sent, turned, ?_⟩
  have lengths := congrArg List.length same
  simp only [List.length_map, List.length_take, List.length_append, List.length_replicate] at lengths
  omega

end ZmqPlayground
