import ZmqPlayground.Common.Message
import ZmqPlayground.Library.Lines
import ZmqPlayground.Library.Lookups

/-! `split`, on which the parsers of configurations and commands rest, and the form of a command. -/

set_option autoImplicit false

namespace ZmqPlayground

open Library
open Library.Lines

/-- The loop over `std::getline` on a stream of the string. -/
def split (str : Str) (delim : Char) : List Str := readAll delim (.fresh str) []

def join (strings : List Str) (delim : Char) : Str := [delim].intercalate strings

theorem split_eq (str : Str) (delim : Char) : split str delim = pieces delim str := rfl

/-- The pieces are free of the delimiter and join to the string, less a delimiter that ends it, and
every list that can come out of `split` does so for its join. -/
theorem split_join (s : Str) (d : Char) :
    (∀ piece ∈ split s d, d ∉ piece) ∧
      join (split s d) d = (if s.getLast? = some d then s.dropLast else s) ∧
      ∀ (xs : List Str) (nonempty : xs ≠ []), (∀ x ∈ xs, d ∉ x) → xs.getLast nonempty ≠ [] →
        split (join xs d) d = xs := by
  apply And.intro
  · exact fun piece member => not_mem_of_mem_pieces member
  · apply And.intro
    · exact join_pieces s
    · exact fun xs nonempty clean last => pieces_join nonempty clean last

/-- An empty field is kept unless it is the last one. -/
theorem split_join_fields :
    split "a||b|".toList '|' = ["a".toList, [], "b".toList] ∧
      split (join ["a".toList, [], "b".toList] '|') '|' = ["a".toList, [], "b".toList] :=
  ⟨by decide +kernel, (split_join [] '|').2.2 _ (by decide) (by decide) (by decide)⟩

section Prompt
variable {A : Type} (subscriptions : A) (command : List Str → Str → Lookups Str (List A))

/-- The body of the loops at a prompt: the words in front of a bar are the command, the text behind it
is the data. -/
def promptLine (line : Str) : Lookups Str (List A) := do
  let listed := if line = "list".toList then [subscriptions] else []
  let parse := split line '|'
  if parse.length = 2 then
    let data ← Lookups.get parse 1
    let cmds := split (← Lookups.get parse 0) ' '
    return listed ++ (← command cmds data)
  else return listed

theorem promptLine_isSome_iff (line : Str) :
    (promptLine subscriptions command line).value.isSome ↔
      ((split line '|').length = 2 →
        (command (split (before '|' line) ' ') (before '|' (behind '|' line))).value.isSome) := by
  simp only [promptLine, Lookups.value_ite, Lookups.value_pure]
  split
  · rename_i two
    have nonempty : line ≠ [] := length_pieces_pos_iff.mp (show 0 < (split line '|').length by omega)
    have more : behind '|' line ≠ [] := (length_pieces_eq_two_iff.mp two).1
    rw [two, split_eq, pieces_of_ne_nil nonempty, pieces_of_ne_nil more]
    simp only [Lookups.value_bind, Lookups.value_get, List.getElem?_cons_succ, List.getElem?_cons_zero,
      Option.bind_some, Lookups.value_pure, true_imp_iff]
    cases (command (split (before '|' line) ' ') (before '|' (behind '|' line))).value <;> simp
  · rename_i other
    exact iff_of_true rfl fun two => absurd two other

end Prompt

end ZmqPlayground
