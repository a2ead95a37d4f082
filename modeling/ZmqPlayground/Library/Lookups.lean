import Mathlib.Data.List.Basic

/-! Computations that look into several vectors by unchecked indices.

An index past the end of its vector gives no element and ends the evaluation, as
such an access has no meaning in the source language.
-/

set_option autoImplicit false

namespace Library

/-- A computation, as the accesses it makes, up to and including the first that is out of range, and
the value it comes to if there is none. -/
structure Lookups (X A : Type) where
  accesses : List (List X × ℕ)
  value : Option A
  within : (∀ access ∈ accesses, access.2 < access.1.length) ↔ value.isSome

namespace Lookups

variable {X A B : Type}

def done (a : A) : Lookups X A := ⟨[], some a, by simp⟩

def get (xs : List X) (i : ℕ) : Lookups X X := ⟨[(xs, i)], xs[i]?, by simp⟩

theorem within_append {earlier later : List (List X × ℕ)} {value : Option A} {next : A → Option B}
    (first : (∀ access ∈ earlier, access.2 < access.1.length) ↔ value.isSome)
    (rest : ∀ a, value = some a → ((∀ access ∈ later, access.2 < access.1.length) ↔ (next a).isSome)) :
    (∀ access ∈ earlier ++ later, access.2 < access.1.length) ↔ (value.bind next).isSome := by
  rw [List.forall_mem_append, first]
  cases value with
  | none => simp
  | some a => simpa using rest a rfl

def bind (lookups : Lookups X A) (next : A → Lookups X B) : Lookups X B where
  accesses := lookups.accesses ++ (lookups.value.map fun a => (next a).accesses).getD []
  value := lookups.value.bind fun a => (next a).value
  within := within_append lookups.within fun a found => by
    rw [found]
    exact (next a).within

instance : Monad (Lookups X) where
  pure := done
  bind := bind

/-- Every index that is asked for is in its vector. -/
def InBounds (lookups : Lookups X A) : Prop :=
  ∀ access ∈ lookups.accesses, access.2 < access.1.length

instance (lookups : Lookups X A) : Decidable lookups.InBounds :=
  inferInstanceAs (Decidable (∀ access ∈ lookups.accesses, access.2 < access.1.length))

theorem inBounds_iff (lookups : Lookups X A) : lookups.InBounds ↔ lookups.value.isSome :=
  lookups.within

@[simp] theorem value_pure (a : A) : (pure a : Lookups X A).value = some a := rfl

@[simp] theorem value_get (xs : List X) (i : ℕ) : (get xs i).value = xs[i]? := rfl

theorem value_get_of_lt {xs : List X} {i : ℕ} (inside : i < xs.length) : (get xs i).value = some xs[i] :=
  List.getElem?_eq_getElem inside

@[simp] theorem value_bind (lookups : Lookups X A) (next : A → Lookups X B) :
    (lookups >>= next).value = lookups.value.bind fun a => (next a).value := rfl

@[simp] theorem value_ite {condition : Prop} [Decidable condition] (yes no : Lookups X A) :
    (if condition then yes else no).value = if condition then yes.value else no.value := by
  split <;> rfl

end Lookups

end Library
