import ZmqPlayground.Common.Util
import ZmqPlayground.ConvStack.Throwing
import ZmqPlayground.Library.Console
import ZmqPlayground.Library.Lookups

/-! The three places where the converter's main function takes conversions from a text: its
configuration file, its option `-P` and its prompt.
-/

set_option autoImplicit false

namespace ZmqPlayground.ConvStackMain

open Library
open Library.Lines

/-- The loop over the `conversions` of the configuration file, with its entries as they have been read. -/
def conversionEntries (entries : List (Str × Str)) (conversions : ConversionMap) : ConversionMap :=
  entries.foldl (fun conversions entry => conversions.insert entry.1 (split entry.2 ' ')) conversions

def conversionOption (optarg : Str) (conversions : ConversionMap) : Lookups Str ConversionMap := do
  let split1 := split optarg '|'
  -- Neither index is checked.
  let split2 := split (← Lookups.get split1 1) ' '
  return conversions.insert (← Lookups.get split1 0) split2

inductive Command where
  | subscriptions
  | calls (call : ConvStack.Call)
  deriving DecidableEq

def command (cmds : List Str) (data : Str) : Lookups Str (List Command) := do
  if 1 ≤ cmds.length then
    if (← Lookups.get cmds 0) = "sub".toList then
      -- The conversion is taken from the second word, not from the data.
      let topic := split (← Lookups.get cmds 1) ':'
      let topics := split (← Lookups.get topic 1) ' '
      return [.calls (.addConversion (← Lookups.get topic 0) topics)]
    else if (← Lookups.get cmds 0) = "unsub".toList then
      return [.calls (.removeConversion data)]
    else return []
  else return []

/-- The body of the loop at the prompt, once the line is not `quit`. -/
def interactive : Str → Lookups Str (List Command) := promptLine .subscriptions command

/-- The loop at the prompt. An access that is out of range has no meaning and ends it. -/
def console : Console Char (List Command) where
  newline := '\n'
  quit := "quit".toList
  act line := (interactive line).value
  leave := []

/-- What becomes of the stack when no socket option call throws. -/
def Command.apply (stack : ConvStack) : Command → ConvStack
  | .subscriptions => stack
  | .calls call => (stack.perform .done call).1

/-- A line of two fields whose first word is `sub` and whose second word has no colon in front of its
last character. -/
def Misread (line : Str) : Prop :=
  (behind '|' line ≠ [] ∧ '|' ∉ (behind '|' line).dropLast) ∧
    before ' ' (before '|' line) = "sub".toList ∧
    ':' ∉ (before ' ' (behind ' ' (before '|' line))).dropLast

instance (line : Str) : Decidable (Misread line) :=
  inferInstanceAs (Decidable ((_ ∧ _) ∧ _ ∧ _))

theorem second_then_first {B : Type} (str : Str) (delim : Char) (next : Str → Str → B) :
    ((split str delim)[1]?.bind fun second => (split str delim)[0]?.bind fun first =>
        some (next first second)) =
      if delim ∈ str.dropLast then some (next (before delim str) (before delim (behind delim str))) else none := by
  rw [split_eq]
  split
  · rename_i inside
    rw [← two_le_length_pieces_iff] at inside
    have nonempty : str ≠ [] := by
      apply (@length_pieces_pos_iff _ _ delim _).mp
      omega
    rw [pieces_of_ne_nil nonempty, List.length_cons] at inside
    have more : behind delim str ≠ [] := by
      apply (@length_pieces_pos_iff _ _ delim _).mp
      omega
    rw [pieces_of_ne_nil nonempty, pieces_of_ne_nil more]
    rfl
  · rename_i outside
    rw [← two_le_length_pieces_iff, not_le] at outside
    rw [List.getElem?_eq_none (show _ ≤ 1 by omega)]
    rfl

theorem conversionOption_value (optarg : Str) (conversions : ConversionMap) :
    (conversionOption optarg conversions).value =
      if '|' ∈ optarg.dropLast then
        some (conversions.insert (before '|' optarg) (split (before '|' (behind '|' optarg)) ' '))
      else none :=
  second_then_first optarg '|' fun first second => conversions.insert first (split second ' ')

theorem conversionOption_isSome_iff (optarg : Str) (conversions : ConversionMap) :
    (conversionOption optarg conversions).value.isSome ↔ '|' ∈ optarg.dropLast := by
  rw [conversionOption_value]
  split <;> simp [*]

theorem command_isSome_iff (cmd data : Str) :
    (command (split cmd ' ') data).value.isSome ↔
      ¬ (before ' ' cmd = "sub".toList ∧ ':' ∉ (before ' ' (behind ' ' cmd)).dropLast) := by
  by_cases empty : cmd = []
  · subst empty
    simp [command, split_eq, before, extract]
  · rw [split_eq, pieces_of_ne_nil empty]
    simp only [command, List.length_cons, Nat.le_add_left, if_true, Lookups.value_bind, Lookups.value_get,
      List.getElem?_cons_zero, Option.bind_some, Lookups.value_ite, Lookups.value_pure]
    by_cases sub : before ' ' cmd = "sub".toList
    · -- The second word is looked for, and then a colon in it.
      rw [if_pos sub]
      simp only [sub, true_and, not_not, List.getElem?_cons_succ]
      by_cases alone : behind ' ' cmd = []
      · -- There is no second word to look at.
        rw [alone, pieces_nil]
        simp [before, extract]
      · rw [pieces_of_ne_nil alone, List.getElem?_cons_zero, Option.bind_some,
          second_then_first (before ' ' (behind ' ' cmd)) ':' fun first second =>
            [Command.calls (.addConversion first (split second ' '))]]
        split <;> simp [*]
    · rw [if_neg sub]
      simp only [sub, false_and, not_false_eq_true, iff_true]
      split <;> rfl

theorem interactive_isSome_iff (line : Str) : (interactive line).value.isSome ↔ ¬ Misread line := by
  rw [interactive, promptLine_isSome_iff, command_isSome_iff, Misread, split_eq, length_pieces_eq_two_iff]
  exact not_and.symm

/-- The option stays within its fields exactly if a bar stands in front of the last character, and a
line of the prompt exactly if it is not a `sub` without a colon. -/
theorem accesses_inBounds_iff (optarg line : Str) (conversions : ConversionMap) :
    ((conversionOption optarg conversions).InBounds ↔ '|' ∈ optarg.dropLast) ∧
      ((interactive line).InBounds ↔ ¬ Misread line) := by
  constructor
  · rw [Lookups.inBounds_iff, conversionOption_isSome_iff]
  · rw [Lookups.inBounds_iff, interactive_isSome_iff]

/-- A topic without conversions, and the command as the prompt explains it. -/
theorem out_of_bounds :
    ¬ (conversionOption "topic1".toList ∅).InBounds ∧
      ¬ (interactive "sub|topic1:topic2 topic3".toList).InBounds := by
  decide +kernel

/-- A topic as conversions are written with: none of the delimiters is in it. -/
structure Plain (topic : Str) : Prop where
  nonempty : topic ≠ []
  unspaced : ' ' ∉ topic
  uncoloned : ':' ∉ topic
  unbarred : '|' ∉ topic

instance (topic : Str) : Decidable (Plain topic) :=
  decidable_of_iff (topic ≠ [] ∧ ' ' ∉ topic ∧ ':' ∉ topic ∧ '|' ∉ topic)
    ⟨fun ⟨nonempty, unspaced, uncoloned, unbarred⟩ => ⟨nonempty, unspaced, uncoloned, unbarred⟩,
      fun plain => ⟨plain.nonempty, plain.unspaced, plain.uncoloned, plain.unbarred⟩⟩

section Ways
variable (topic : Str) (pubTopics : List Str)

/-- The last entry of the topic decides. -/
def EntryDefines : Prop :=
  ∀ earlier later conversions, topic ∉ later.map Prod.fst →
    (conversionEntries (earlier ++ (topic, join pubTopics ' ') :: later) conversions).lookup topic = some pubTopics

def OptionDefines : Prop :=
  ∀ conversions, ((conversionOption (topic ++ '|' :: join pubTopics ' ') conversions).value.map
    fun conversions => conversions.lookup topic) = some (some pubTopics)

/-- The line that the prompt explains as `sub|<topic>:<topic> <topic>...`. -/
def subLine : Str := "sub|".toList ++ topic ++ ':' :: join pubTopics ' '

def PromptDefines (stack : ConvStack) : Prop :=
  ((interactive (subLine topic pubTopics)).value.map
    fun commands => (commands.foldl Command.apply stack).conversionMap.lookup topic) = some (some pubTopics)

end Ways

theorem lookup_conversionEntries {topic : Str} (entries : List (Str × Str)) (conversions : ConversionMap)
    (absent : topic ∉ entries.map Prod.fst) :
    (conversionEntries entries conversions).lookup topic = conversions.lookup topic := by
  unfold conversionEntries
  induction entries generalizing conversions with
  | nil => rfl
  | cons entry entries ih =>
      rw [List.map_cons, List.mem_cons, not_or] at absent
      rw [List.foldl_cons, ih _ absent.2, Table.lookup_insert, if_neg absent.1]

section Written
variable {topic : Str} {pubTopics : List Str} (plain : Plain topic) (nonempty : pubTopics ≠ [])
  (plains : ∀ pubTopic ∈ pubTopics, Plain pubTopic)

include nonempty plains

theorem split_join_plain : split (join pubTopics ' ') ' ' = pubTopics := by
  apply pieces_join nonempty
  · exact fun pubTopic member => (plains pubTopic member).unspaced
  · exact (plains _ (List.getLast_mem nonempty)).nonempty

theorem join_plain_ne_nil : join pubTopics ' ' ≠ [] := by
  intro empty
  have read := split_join_plain nonempty plains
  rw [empty, split_eq, pieces_nil] at read
  exact nonempty read.symm

omit nonempty in
theorem bar_not_mem_join : '|' ∉ join pubTopics ' ' :=
  not_mem_join (by decide) fun pubTopic member => (plains pubTopic member).unbarred

theorem entryDefines : EntryDefines topic pubTopics := by
  intro earlier later conversions absent
  have inserted : conversionEntries (earlier ++ (topic, join pubTopics ' ') :: later) conversions =
      conversionEntries later
        ((conversionEntries earlier conversions).insert topic (split (join pubTopics ' ') ' ')) :=
    List.foldl_append
  rw [inserted, lookup_conversionEntries later _ absent, Table.lookup_insert, if_pos rfl,
    split_join_plain nonempty plains]

include plain

theorem optionDefines : OptionDefines topic pubTopics := by
  intro conversions
  have inside : '|' ∈ (topic ++ '|' :: join pubTopics ' ').dropLast := by
    obtain ⟨first, rest, same⟩ := List.exists_cons_of_ne_nil (join_plain_ne_nil nonempty plains)
    rw [List.dropLast_append_cons, same, List.dropLast_cons_cons]
    simp
  rw [conversionOption_value, if_pos inside, before_append plain.unbarred, behind_append plain.unbarred,
    before_of_not_mem (bar_not_mem_join plains), split_join_plain nonempty plains, Option.map_some,
    Table.lookup_insert, if_pos rfl]

omit nonempty in
/-- The only word in front of the bar is `sub`. -/
theorem misread_subLine : Misread (subLine topic pubTopics) := by
  have clean : '|' ∉ topic ++ ':' :: join pubTopics ' ' := by
    simp [plain.unbarred, bar_not_mem_join plains]
  have whole : subLine topic pubTopics = "sub".toList ++ '|' :: (topic ++ ':' :: join pubTopics ' ') := rfl
  unfold Misread
  rw [whole, before_append (by decide), behind_append (by decide)]
  refine ⟨⟨by simp, fun member => clean (List.mem_of_mem_dropLast member)⟩, by decide⟩

end Written

/-- The configuration file and the option both define the conversion. The line that the prompt explains
reads a second word that it does not have. -/
theorem ways_disagree (stack : ConvStack) {topic : Str} {pubTopics : List Str} (plain : Plain topic)
    (nonempty : pubTopics ≠ []) (plains : ∀ pubTopic ∈ pubTopics, Plain pubTopic) :
    EntryDefines topic pubTopics ∧ OptionDefines topic pubTopics ∧
      (interactive (subLine topic pubTopics)).value = none ∧
      ¬ (EntryDefines topic pubTopics ∧ OptionDefines topic pubTopics ∧
        PromptDefines topic pubTopics stack) := by
  have unread : (interactive (subLine topic pubTopics)).value = none := by
    rw [← Option.not_isSome_iff_eq_none, interactive_isSome_iff, not_not]
    exact misread_subLine plain plains
  refine ⟨entryDefines nonempty plains, optionDefines plain nonempty plains, unread, ?_⟩
  rintro ⟨_, _, defines⟩
  rw [PromptDefines, unread] at defines
  cases defines

theorem ways_disagree_topic1 :
    OptionDefines "topic1".toList ["topic2".toList] ∧
      (interactive (subLine "topic1".toList ["topic2".toList])).value = none := by
  have plain : Plain "topic1".toList := by decide
  have plains : ∀ pubTopic ∈ ["topic2".toList], Plain pubTopic := by decide
  have ways := ways_disagree (.create (fun _ => true) [] [] ∅) plain (List.cons_ne_nil _ _) plains
  exact ⟨ways.2.1, ways.2.2.1⟩

/-- Two topics to convert to, and no way to say so at the prompt. -/
theorem prompt_never_defines :
    ¬ (EntryDefines "topic1".toList ["topic2".toList, "topic3".toList] ∧
      OptionDefines "topic1".toList ["topic2".toList, "topic3".toList] ∧
      PromptDefines "topic1".toList ["topic2".toList, "topic3".toList]
        (.create (fun _ => true) [] ["topic1".toList] ∅)) := by
  have unread : (interactive (subLine "topic1".toList ["topic2".toList, "topic3".toList])).value = none := by
    decide +kernel
  rintro ⟨_, _, defines⟩
  rw [PromptDefines, unread] at defines
  cases defines

end ZmqPlayground.ConvStackMain
