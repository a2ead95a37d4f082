import Mathlib.Data.List.Infix

/-! A loop over a list that is left at the first item that fails. -/

set_option autoImplicit false

namespace Library.Scan

variable {A : Type} (succeeds : A → Bool)

/-- The items that the loop comes to, the one that fails among them. -/
def visited : List A → List A
  | [] => []
  | item :: rest => item :: if succeeds item then visited rest else []

theorem visited_begins (items : List A) : visited succeeds items <+: items := by
  induction items with
  | nil => exact List.prefix_rfl
  | cons item rest ih =>
      rw [visited, List.prefix_cons_inj]
      split
      · exact ih
      · exact List.nil_prefix

theorem visited_eq_iff (items : List A) :
    visited succeeds items = items ↔ ∀ item ∈ items.dropLast, succeeds item = true := by
  induction items with
  | nil => simp [visited]
  | cons item rest ih =>
      cases rest with
      | nil => simp [visited]
      | cons next rest =>
          rw [visited, List.cons_inj_right, List.dropLast_cons_cons, List.forall_mem_cons]
          cases succeeds item with
          | false => simp
          | true => simpa using ih

section Actions
variable {B : Type} {actions : A → List B} (single : ∀ item, (actions item).length ≤ 1)

include single in
theorem length_flatMap_le (items : List A) : (items.flatMap actions).length ≤ items.length := by
  induction items with
  | nil => simp
  | cons item rest ih =>
      have := single item
      rw [List.flatMap_cons, List.length_append, List.length_cons]
      omega

include single in
theorem length_flatMap_eq_iff (items : List A) :
    (items.flatMap actions).length = items.length ↔ ∀ item ∈ items, actions item ≠ [] := by
  induction items with
  | nil => simp
  | cons item rest ih =>
      have one := single item
      have others := length_flatMap_le single rest
      rw [List.flatMap_cons, List.length_append, List.length_cons, List.forall_mem_cons, ← ih,
        ← List.length_pos_iff]
      omega

include single in
/-- A loop that does at most one thing for an item does one for every item of the list exactly if it
does one for each and is not left before the last. -/
theorem length_visited_iff (items : List A) :
    ((visited succeeds items).flatMap actions).length = items.length ↔
      (∀ item ∈ items, actions item ≠ []) ∧ ∀ item ∈ items.dropLast, succeeds item = true := by
  rw [← visited_eq_iff]
  constructor
  · intro same
    have all : visited succeeds items = items := by
      apply (visited_begins succeeds items).eq_of_length_le
      exact same ▸ length_flatMap_le single _
    rw [all, length_flatMap_eq_iff single] at same
    exact ⟨same, all⟩
  · rintro ⟨each, all⟩
    rw [all, length_flatMap_eq_iff single]
    exact each

end Actions

end Library.Scan
