import Mathlib.Data.List.Infix

/-! A chain of first-in first-out queues.

A chain lists its queues from the way out to the way in: items enter the last of them,
move from the head of one to the end of the one before it, and stay in the first.
-/

set_option autoImplicit false

namespace Library.Chain

variable {A : Type}

/-- One move of a chain, with the items that enter it. -/
inductive Moves : List A → List (List A) → List (List A) → Prop where
  | rests (chain : List (List A)) : Moves [] chain chain
  | enters (ahead : List (List A)) (queue : List A) (item : A) :
      Moves [item] (ahead ++ [queue]) (ahead ++ [queue ++ [item]])
  | advances (ahead : List (List A)) (queue : List A) (item : A) (later : List A)
      (behind : List (List A)) :
      Moves [] (ahead ++ queue :: (item :: later) :: behind) (ahead ++ (queue ++ [item]) :: later :: behind)

theorem Moves.of_eq {before after : List (List A)} (same : after = before) : Moves [] before after :=
  same ▸ .rests before

/-- Nothing is lost, repeated or overtaken: the chain holds what has entered, in order. -/
theorem Moves.flatten {entered : List A} {before after : List (List A)} (moves : Moves entered before after) :
    after.flatten = before.flatten ++ entered := by
  cases moves with
  | rests => simp
  | enters => simp
  | advances => simp

theorem prefix_of_flatten {queue entered : List A} {behind : List (List A)}
    (held : (queue :: behind).flatten = entered) : queue <+: entered :=
  ⟨behind.flatten, held⟩

theorem eq_of_flatten {queue entered : List A} {behind : List (List A)} (held : (queue :: behind).flatten = entered)
    (empty : ∀ other ∈ behind, other = []) : queue = entered := by
  rw [List.flatten_cons, List.flatten_eq_nil_iff.mpr empty, List.append_nil] at held
  exact held

end Library.Chain
