import ZmqPlayground.Prompts

/-! What can be asked of the stacks at their prompts.

A separator cannot be escaped: no word contains a space and no field a bar. Words and
fields may be empty, also the last ones, where a separator is put behind them.
-/

set_option autoImplicit false

namespace ZmqPlayground

open Library
open Library.Lines

def Field (text : Str) : Prop := '|' ∉ text ∧ '\n' ∉ text

def Word (text : Str) : Prop := ' ' ∉ text ∧ Field text

instance (text : Str) : Decidable (Field text) := inferInstanceAs (Decidable (_ ∧ _))

instance (text : Str) : Decidable (Word text) := inferInstanceAs (Decidable (_ ∧ _))

/-- Words and data as a line of two fields, each with its separator behind it. -/
def commandLine (words : List Str) (data : Str) : Str :=
  words.flatMap (· ++ [' ']) ++ '|' :: (data ++ ['|'])

section Words
variable {words : List Str} {data : Str} (clean : ∀ word ∈ words, Word word) (field : Field data)
include clean

theorem split_words : split (words.flatMap (· ++ [' '])) ' ' = words :=
  pieces_terminated fun word member => (clean word member).1

theorem field_words : Field (words.flatMap (· ++ [' '])) :=
  ⟨not_mem_terminated (by decide) fun word member => (clean word member).2.1,
    not_mem_terminated (by decide) fun word member => (clean word member).2.2⟩

include field

theorem split_commandLine : split (commandLine words data) '|' = [words.flatMap (· ++ [' ']), data] := by
  rw [split_eq, commandLine, pieces_append (field_words clean).1, pieces_append field.1, pieces_nil]

theorem newline_not_mem_commandLine : '\n' ∉ commandLine words data := by
  simp [commandLine, (field_words clean).2, field.2, -List.mem_flatMap]

end Words

theorem commandLine_ne {words : List Str} {data line : Str} (barless : '|' ∉ line) :
    commandLine words data ≠ line := by
  rintro rfl
  simp [commandLine] at barless

theorem field_of_mem_split {line text : Str} (single : '\n' ∉ line) (piece : text ∈ split line '|') : Field text :=
  ⟨not_mem_of_mem_pieces piece, fun inside => single (mem_of_mem_pieces piece inside)⟩

theorem word_of_mem_split {field text : Str} (clean : Field field) (piece : text ∈ split field ' ') : Word text :=
  ⟨not_mem_of_mem_pieces piece, fun inside => clean.1 (mem_of_mem_pieces piece inside),
    fun inside => clean.2 (mem_of_mem_pieces piece inside)⟩

section Prompt
variable {A : Type} {subscriptions : A} {command : List Str → Str → Lookups Str (List A)}

theorem promptLine_list : (promptLine subscriptions command "list".toList).value = some [subscriptions] := by
  have parsed : split "list".toList '|' = ["list".toList] := pieces_last (by decide) (by decide)
  simp only [promptLine, parsed, List.length_cons, List.length_nil, Nat.reduceAdd, Nat.reduceEqDiff, if_false]
  rfl

theorem promptLine_commandLine {words : List Str} {data : Str} (clean : ∀ word ∈ words, Word word)
    (field : Field data) :
    (promptLine subscriptions command (commandLine words data)).value = (command words data).value := by
  have unlisted : commandLine words data ≠ "list".toList := commandLine_ne (by decide)
  have parsed := split_commandLine clean field
  simp only [promptLine, parsed, if_neg unlisted, List.length_cons, List.length_nil, if_true, Lookups.value_bind,
    Lookups.value_get, List.getElem?_cons_succ, List.getElem?_cons_zero, Option.bind_some, split_words clean,
    Lookups.value_pure, List.nil_append, Option.bind_fun_some]

theorem promptLine_asks {line : Str} (single : '\n' ∉ line) {asked : List A}
    (given : (promptLine subscriptions command line).value = some asked) {wanted : A} (member : wanted ∈ asked) :
    wanted = subscriptions ∨ ∃ words data commands, (∀ word ∈ words, Word word) ∧ Field data ∧
      (command words data).value = some commands ∧ wanted ∈ commands := by
  have listed {wanted : A} (member : wanted ∈ if line = "list".toList then [subscriptions] else []) :
      wanted = subscriptions := by
    split at member
    · exact List.mem_singleton.mp member
    · simp at member
  simp only [promptLine, Lookups.value_ite] at given
  split at given
  · rename_i two
    obtain ⟨first, data, parsed⟩ := List.length_eq_two.mp two
    have front : Field first := field_of_mem_split single (by simp [parsed])
    have behind : Field data := field_of_mem_split single (by simp [parsed])
    simp only [parsed, Lookups.value_bind, Lookups.value_get, List.getElem?_cons_succ, List.getElem?_cons_zero,
      Option.bind_some, Lookups.value_pure, Option.bind_eq_some_iff, Option.some.injEq] at given
    obtain ⟨commands, commanded, rfl⟩ := given
    rcases List.mem_append.mp member with early | late
    · exact .inl (listed early)
    · exact .inr ⟨_, data, commands, fun _ => word_of_mem_split front, behind, commanded, late⟩
  · cases given
    exact .inl (listed member)

theorem performs_prompt_iff {console : Console Char (List A)} (newline : console.newline = '\n')
    (quit : console.quit = "quit".toList)
    (acts : ∀ line, console.act line = (promptLine subscriptions command line).value) {Typeable : A → Prop}
    (listed : Typeable subscriptions)
    (sound : ∀ words data commands, (∀ word ∈ words, Word word) → Field data →
      (command words data).value = some commands → ∀ wanted ∈ commands, Typeable wanted)
    (complete : ∀ wanted, Typeable wanted → wanted = subscriptions ∨
      ∃ words data, (∀ word ∈ words, Word word) ∧ Field data ∧ (command words data).value = some [wanted])
    (commands : List A) : console.Performs commands ↔ ∀ wanted ∈ commands, Typeable wanted := by
  refine Console.performs_iff (by simp [quit]) (by simp [quit, newline]) ?_ ?_ commands
  · rintro asked ⟨line, single, -, given⟩ wanted member
    rw [newline] at single
    rw [acts] at given
    rcases promptLine_asks single given member with
      rfl | ⟨words, data, commands, clean, field, commanded, inside⟩
    · exact listed
    · exact sound words data commands clean field commanded wanted inside
  · intro wanted typeable
    rcases complete wanted typeable with rfl | ⟨words, data, clean, field, commanded⟩
    · refine ⟨"list".toList, ?_, ?_, (acts _).trans promptLine_list⟩ <;> simp [newline, quit]
    · refine ⟨commandLine words data, ?_, ?_, ?_⟩
      · exact newline ▸ newline_not_mem_commandLine clean field
      · exact quit ▸ commandLine_ne (by decide)
      · rw [acts, promptLine_commandLine clean field, commanded]

end Prompt

namespace ZmqStackMain

/-- A message cannot be published to a list of topics that begins with one of the words of the prompt. -/
def Command.Typeable : Command → Prop
  | .subscriptions => True
  | .subscribe text | .unsubscribe text | .send text => Field text
  | .publish topics msg =>
      (∃ first ∈ topics.head?, first ≠ "sub".toList ∧ first ≠ "unsub".toList ∧ first ≠ "send".toList) ∧
        (∀ topic ∈ topics, Word topic) ∧ Field msg

theorem typeable_of_asks {words : List Str} {data : Str} {commands : List Command}
    (clean : ∀ word ∈ words, Word word) (field : Field data)
    (commanded : (command words data).value = some commands) {wanted : Command} (member : wanted ∈ commands) :
    wanted.Typeable := by
  cases words with
  | nil =>
      cases commanded
      cases member
  | cons first rest =>
      simp only [command, List.length_cons, Nat.le_add_left, if_true, Lookups.value_bind, Lookups.value_get,
        List.getElem?_cons_zero, Option.bind_some, Lookups.value_ite, Lookups.value_pure] at commanded
      split_ifs at commanded with sub unsub send <;> cases commanded <;> cases List.mem_singleton.mp member
      · exact field
      · exact field
      · exact field
      · exact ⟨⟨first, rfl, sub, unsub, send⟩, clean, field⟩

theorem asked_of_typeable {wanted : Command} (typeable : wanted.Typeable) : wanted = .subscriptions ∨
    ∃ words data, (∀ word ∈ words, Word word) ∧ Field data ∧ (command words data).value = some [wanted] := by
  cases wanted with
  | subscriptions => exact .inl rfl
  | subscribe topic => exact .inr ⟨["sub".toList], topic, by decide, typeable, rfl⟩
  | unsubscribe topic => exact .inr ⟨["unsub".toList], topic, by decide, typeable, rfl⟩
  | send msg => exact .inr ⟨["send".toList], msg, by decide, typeable, rfl⟩
  | publish topics msg =>
      obtain ⟨⟨first, head, sub, unsub, send⟩, clean, field⟩ := typeable
      refine .inr ⟨topics, msg, clean, field, ?_⟩
      cases topics with
      | nil => cases head
      | cons topic topics =>
          cases head
          simp only [command, List.length_cons, Nat.le_add_left, if_true, Lookups.value_bind, Lookups.value_get,
            List.getElem?_cons_zero, Option.bind_some, Lookups.value_ite, Lookups.value_pure, if_neg sub,
            if_neg unsub, if_neg send]

end ZmqStackMain

namespace ConvStackMain

def Name (text : Str) : Prop := ':' ∉ text ∧ Word text

instance (text : Str) : Decidable (Name text) := inferInstanceAs (Decidable (_ ∧ _))

/-- The words of a command contain no space, and so a topic is converted to no more than one other. -/
def Command.Typeable : Command → Prop
  | .subscriptions => True
  | .calls (.addConversion subTopic pubTopics) =>
      Name subTopic ∧ pubTopics.length ≤ 1 ∧ ∀ topic ∈ pubTopics, topic ≠ [] ∧ Name topic
  | .calls (.removeConversion subTopic) => Field subTopic
  | .calls (.subscribe _) | .calls (.unsubscribe _) => False

theorem name_of_mem_split {word text : Str} (clean : Word word) (piece : text ∈ split word ':') : Name text :=
  ⟨not_mem_of_mem_pieces piece, fun inside => clean.1 (mem_of_mem_pieces piece inside),
    fun inside => clean.2.1 (mem_of_mem_pieces piece inside),
    fun inside => clean.2.2 (mem_of_mem_pieces piece inside)⟩

theorem split_name {text : Str} (name : Name text) : split text ' ' = if text = [] then [] else [text] := by
  split
  · rename_i empty
    rw [empty]
    exact pieces_nil
  · rename_i nonempty
    exact pieces_last name.2.1 nonempty

theorem typeable_of_asks {words : List Str} {data : Str} {commands : List Command}
    (clean : ∀ word ∈ words, Word word) (field : Field data)
    (commanded : (command words data).value = some commands) {wanted : Command} (member : wanted ∈ commands) :
    wanted.Typeable := by
  cases words with
  | nil =>
      cases commanded
      cases member
  | cons first rest =>
      simp only [command, List.length_cons, Nat.le_add_left, if_true, Lookups.value_bind, Lookups.value_get,
        List.getElem?_cons_zero, Option.bind_some, Lookups.value_ite, Lookups.value_pure,
        List.getElem?_cons_succ] at commanded
      split_ifs at commanded with sub unsub
      · simp only [Option.bind_eq_some_iff, Option.some.injEq] at commanded
        obtain ⟨word, second, text, behind, topic, ahead, rfl⟩ := commanded
        obtain rfl := List.mem_singleton.mp member
        have word := clean word (List.mem_cons_of_mem _ (List.mem_of_getElem? second))
        have name := name_of_mem_split word (List.mem_of_getElem? behind)
        refine ⟨name_of_mem_split word (List.mem_of_getElem? ahead), ?_⟩
        rw [split_name name]
        split
        · simp
        · rename_i nonempty
          simpa using ⟨nonempty, name⟩
      · cases commanded
        obtain rfl := List.mem_singleton.mp member
        exact field
      · cases commanded
        cases member

theorem asked_of_typeable {wanted : Command} (typeable : wanted.Typeable) : wanted = .subscriptions ∨
    ∃ words data, (∀ word ∈ words, Word word) ∧ Field data ∧ (command words data).value = some [wanted] := by
  cases wanted with
  | subscriptions => exact .inl rfl
  | calls call =>
      cases call with
      | subscribe | unsubscribe => exact typeable.elim
      | removeConversion subTopic => exact .inr ⟨["unsub".toList], subTopic, by decide, typeable, rfl⟩
      | addConversion subTopic pubTopics =>
          obtain ⟨from_name, single, names⟩ := typeable
          -- The second word; without a topic to convert to, it ends in two colons.
          have second (text : Str) (name : Name text) (read : split text ' ' = pubTopics) :
              ∃ words data, (∀ word ∈ words, Word word) ∧ Field data ∧ (command words data).value =
                some [.calls (.addConversion subTopic pubTopics)] := by
            have parsed : split (subTopic ++ ':' :: (text ++ [':'])) ':' = [subTopic, text] := by
              rw [split_eq, pieces_append from_name.1, pieces_append name.1, pieces_nil]
            refine ⟨["sub".toList, subTopic ++ ':' :: (text ++ [':'])], [], ?_, by decide, ?_⟩
            · simp only [List.mem_cons, List.not_mem_nil, or_false, forall_eq_or_imp, forall_eq]
              apply And.intro
              · decide
              · obtain ⟨_, spaceless, barless, single⟩ := from_name
                obtain ⟨_, also, barless', single'⟩ := name
                refine ⟨?_, ?_, ?_⟩ <;> simp [*]
            · simp [command, parsed, read]
          cases pubTopics with
          | nil => exact .inr (second [] (by decide) pieces_nil)
          | cons topic topics =>
              obtain rfl : topics = [] := List.length_eq_zero_iff.mp (by simpa using single)
              obtain ⟨nonempty, name⟩ := names topic (List.mem_singleton_self _)
              exact .inr (second topic name (pieces_last name.2.1 nonempty))

end ConvStackMain

namespace InprocStackMain

/-- `Stop` is no command of the prompt; all stacks are stopped when it is left. -/
def Command.Typeable : Command → Prop
  | .subscribe _ topic | .unsubscribe _ topic => Field topic
  | .publish _ topics msg =>
      (∃ first ∈ topics.head?, first ≠ "sub".toList ∧ first ≠ "unsub".toList) ∧ (∀ topic ∈ topics, Word topic) ∧
        Field msg
  | .stop _ => False

theorem typeable_of_asks {node : Node} {words : List Str} {data : Str} {commands : List Command}
    (clean : ∀ word ∈ words, Word word) (field : Field data)
    (commanded : (command node words data).value = some commands) {wanted : Command} (member : wanted ∈ commands) :
    wanted.Typeable := by
  cases words with
  | nil =>
      cases commanded
      cases member
  | cons first rest =>
      simp only [command, List.length_cons, Nat.le_add_left, if_true, Lookups.value_bind, Lookups.value_get,
        List.getElem?_cons_zero, Option.bind_some, Lookups.value_ite, Lookups.value_pure] at commanded
      split_ifs at commanded with sub unsub alone <;> cases commanded <;> cases List.mem_singleton.mp member
      · exact field
      · exact field
      · exact ⟨⟨first, rfl, sub, unsub⟩, by simpa using clean first (List.mem_cons_self ..), field⟩
      · exact ⟨⟨first, rfl, sub, unsub⟩, clean, field⟩

theorem asked_of_typeable {wanted : Command} (typeable : wanted.Typeable) :
    ∃ node words data, (∀ word ∈ words, Word word) ∧ Field data ∧
      (command node words data).value = some [wanted] := by
  cases wanted with
  | subscribe node topic => exact ⟨node, ["sub".toList], topic, by decide, typeable, rfl⟩
  | unsubscribe node topic => exact ⟨node, ["unsub".toList], topic, by decide, typeable, rfl⟩
  | stop => exact typeable.elim
  | publish node topics msg =>
      obtain ⟨⟨first, head, sub, unsub⟩, clean, field⟩ := typeable
      refine ⟨node, topics, msg, clean, field, ?_⟩
      cases topics with
      | nil => cases head
      | cons topic topics =>
          cases head
          simp only [command, List.length_cons, Nat.le_add_left, if_true, Lookups.value_bind, Lookups.value_get,
            List.getElem?_cons_zero, Option.bind_some, Lookups.value_ite, Lookups.value_pure, if_neg sub,
            if_neg unsub]
          cases topics <;> simp

theorem exists_number (node : Node) : ∃ digits number, Field digits ∧ stoi digits = .ok number ∧
    ∃ inside : (number % 2 ^ 64).toNat < nodes.length, nodes[(number % 2 ^ 64).toNat] = node := by
  cases node with
  | stack index =>
      match index with
      | 0 => exact ⟨"0".toList, 0, by decide, by decide, by decide, rfl⟩
      | 1 => exact ⟨"1".toList, 1, by decide, by decide, by decide, rfl⟩
      | 2 => exact ⟨"2".toList, 2, by decide, by decide, by decide, rfl⟩
      | 3 => exact ⟨"3".toList, 3, by decide, by decide, by decide, rfl⟩
  | net side =>
      cases side with
      | netA => exact ⟨"4".toList, 4, by decide, by decide, by decide, rfl⟩
      | netB => exact ⟨"5".toList, 5, by decide, by decide, by decide, rfl⟩
  | conv => exact ⟨"6".toList, 6, by decide, by decide, by decide, rfl⟩

theorem enters_of_typeable {wanted : Command} (typeable : wanted.Typeable) : console.Enters [wanted] := by
  obtain ⟨node, words, data, clean, field, commanded⟩ := asked_of_typeable typeable
  obtain ⟨digits, number, digital, converted, inside, same⟩ := exists_number node
  have parsed : split (digits ++ '|' :: commandLine words data) '|' =
      [digits, words.flatMap (· ++ [' ']), data] := by
    rw [split_eq, pieces_append digital.1, ← split_eq, split_commandLine clean field]
  refine ⟨digits ++ '|' :: commandLine words data, ?_, ?_, ?_⟩
  · have single := newline_not_mem_commandLine clean field
    simp [console, digital.2, single]
  · intro quit
    have barless : '|' ∉ console.quit := by decide
    rw [← quit] at barless
    simp at barless
  · simp only [console, interactive, parsed, List.length_cons, List.length_nil, Nat.reduceAdd, if_true,
      Lookups.value_bind, Lookups.value_get, List.getElem?_cons_zero, List.getElem?_cons_succ, Option.bind_some,
      converted, dif_pos inside, split_words clean, same, commanded, Lookups.value_pure]
    rfl

theorem typeable_of_enters {event : List Command} (enters : console.Enters event) :
    ∀ wanted ∈ event, wanted.Typeable := by
  obtain ⟨line, single, -, given⟩ := enters
  simp only [console, interactive, Lookups.value_ite] at given
  split at given
  · rename_i three
    obtain ⟨digits, front, data, parsed⟩ := List.length_eq_three.mp three
    have words : Field front := field_of_mem_split single (by simp [parsed])
    have behind : Field data := field_of_mem_split single (by simp [parsed])
    simp only [parsed, Lookups.value_bind, Lookups.value_get, List.getElem?_cons_zero, Option.bind_some] at given
    cases converted : stoi digits with
    | error error =>
        simp only [converted, Lookups.value_pure, Option.bind_some] at given
        cases given
    | ok number =>
        simp only [converted] at given
        split at given
        · simp only [Lookups.value_bind, Lookups.value_get, List.getElem?_cons_succ, List.getElem?_cons_zero,
            Option.bind_some, Lookups.value_pure] at given
          obtain ⟨result, found, same⟩ := Option.bind_eq_some_iff.mp given
          obtain ⟨commands, commanded, wrapped⟩ := Option.bind_eq_some_iff.mp found
          cases wrapped
          cases same
          exact fun wanted => typeable_of_asks (fun _ => word_of_mem_split words) behind commanded
        · cases given
          simp
  · cases given
    simp

end InprocStackMain

/-- What the prompts of the three programs can be made to do before they are left: nothing but commands
of the texts above, and these in any number and any order. -/
theorem prompts_perform_iff :
    (∀ commands, ZmqStackMain.console.Performs commands ↔ ∀ wanted ∈ commands, wanted.Typeable) ∧
      (∀ commands, ConvStackMain.console.Performs commands ↔ ∀ wanted ∈ commands, wanted.Typeable) ∧
      ∀ commands, InprocStackMain.console.Performs commands ↔ ∀ wanted ∈ commands, wanted.Typeable := by
  refine ⟨fun commands => ?_, fun commands => ?_, fun commands => ?_⟩
  · exact performs_prompt_iff rfl rfl (fun line => rfl) trivial
      (fun words data commands clean field commanded wanted member =>
        ZmqStackMain.typeable_of_asks clean field commanded member)
      (fun wanted typeable => ZmqStackMain.asked_of_typeable typeable) commands
  · exact performs_prompt_iff rfl rfl (fun line => rfl) trivial
      (fun words data commands clean field commanded wanted member =>
        ConvStackMain.typeable_of_asks clean field commanded member)
      (fun wanted typeable => ConvStackMain.asked_of_typeable typeable) commands
  · exact Console.performs_iff (by decide) (by decide)
      (fun event enters => InprocStackMain.typeable_of_enters enters)
      (fun wanted typeable => InprocStackMain.enters_of_typeable typeable) commands

end ZmqPlayground
