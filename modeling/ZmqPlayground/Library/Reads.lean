import Mathlib.Data.List.Basic

/-! Computations that look into a vector by its indices.

An index past the end gives no element and ends the evaluation, as an unchecked
access has no meaning in the source language. The indices asked for are kept
apart from the result, so that a bound can be stated about all of them.
-/

set_option autoImplicit false

namespace Library

inductive Reads (X A : Type) where
  | done : A → Reads X A
  | size : (Nat → Reads X A) → Reads X A
  | read : Nat → (X → Reads X A) → Reads X A

namespace Reads

variable {X A B : Type}

def bind : Reads X A → (A → Reads X B) → Reads X B
  | .done a, next => next a
  | .size k, next => .size fun n => (k n).bind next
  | .read i k, next => .read i fun x => (k x).bind next

instance : Monad (Reads X) where
  pure := .done
  bind := bind

/-- The element at an index, unchecked. -/
def get (i : Nat) : Reads X X := .read i .done

def length : Reads X Nat := .size .done

/-- The value computed from a vector, if every index asked for is in it. -/
def eval : Reads X A → List X → Option A
  | .done a, _ => some a
  | .size k, xs => (k xs.length).eval xs
  | .read i k, xs => match xs[i]? with
    | some x => (k x).eval xs
    | none => none

/-- The indices asked for, up to and including the first that is out of range. -/
def indices : Reads X A → List X → List Nat
  | .done _, _ => []
  | .size k, xs => (k xs.length).indices xs
  | .read i k, xs => match xs[i]? with
    | some x => i :: (k x).indices xs
    | none => [i]

def InBounds (reads : Reads X A) (xs : List X) : Prop :=
  ∀ i ∈ reads.indices xs, i < xs.length

instance (reads : Reads X A) (xs : List X) : Decidable (reads.InBounds xs) :=
  inferInstanceAs (Decidable (∀ i ∈ reads.indices xs, i < xs.length))

variable (xs : List X)

@[simp] theorem eval_pure (a : A) : (pure a : Reads X A).eval xs = some a := rfl

@[simp] theorem eval_bind (reads : Reads X A) (next : A → Reads X B) :
    (reads >>= next).eval xs = (reads.eval xs).bind fun a => (next a).eval xs := by
  change (reads.bind next).eval xs = _
  induction reads with
  | done a => rfl
  | size k ih => exact ih xs.length
  | read i k ih =>
      simp only [bind, eval]
      cases xs[i]? with
      | none => rfl
      | some x => exact ih x

@[simp] theorem eval_get (i : Nat) : (get i : Reads X X).eval xs = xs[i]? := by
  simp only [get, eval]
  cases xs[i]? <;> rfl

@[simp] theorem eval_length : (length : Reads X Nat).eval xs = some xs.length := rfl

theorem inBounds_iff_eval (reads : Reads X A) : reads.InBounds xs ↔ (reads.eval xs).isSome := by
  induction reads with
  | done a => simp [InBounds, indices, eval]
  | size k ih => exact ih xs.length
  | read i k ih =>
      cases found : xs[i]? with
      | none =>
          have outside := List.getElem?_eq_none_iff.mp found
          simp only [InBounds, indices, eval, found, List.mem_singleton, forall_eq,
            Option.isSome_none, Bool.false_eq_true, iff_false]
          omega
      | some x =>
          have inside := (List.getElem?_eq_some_iff.mp found).1
          have rest := ih x
          simp only [InBounds] at rest
          simp only [InBounds, indices, eval, found, List.mem_cons, forall_eq_or_imp, inside,
            true_and]
          exact rest

end Reads

end Library
