import ZmqPlayground.Library.Runs

/-! Work that comes to an end.

Some steps are work that has been begun. A measure that each of them lowers and that no
other step raises bounds how often they are taken, whatever else is interleaved.
Where some of them can be taken as long as the measure is not zero, the work can be
brought to its end.
-/

set_option autoImplicit false

namespace Library.Runs

variable {S L E : Type} {step : Step S L E} {start final : S} {steps : List (Taken S L E)}

/-- What the permitted steps keep, and what they take from the work that is left. -/
structure Draining (step : Step S L E) (permitted : L → Prop) (work : S → L → Bool) where
  holds : S → Prop
  left : S → ℕ
  pays : ∀ before label after events, holds before → permitted label →
    step before label = some (after, events) →
    holds after ∧ left after + (work before label).toNat ≤ left before

variable {permitted : L → Prop} {work : S → L → Bool} (draining : Draining step permitted work)

theorem Draining.count_le (run : Run step start steps final)
    (allowed : ∀ taken ∈ steps, permitted taken.label) (initially : draining.holds start) :
    draining.holds final ∧
      steps.countP (fun taken => work taken.before taken.label) + draining.left final ≤ draining.left start := by
  induction run with
  | nil => exact ⟨initially, by simp⟩
  | @snoc steps before after label events _ stepped ih =>
      simp only [List.mem_append, List.mem_singleton] at allowed
      obtain ⟨holds, bound⟩ := ih fun taken member => allowed taken (.inl member)
      obtain ⟨still, pays⟩ := draining.pays before label after events holds
        (allowed ⟨before, label, events⟩ (.inr rfl)) stepped
      refine ⟨still, ?_⟩
      rw [List.countP_append, List.countP_singleton]
      cases working : work before label
      · simp only [working, Bool.toNat_false, Bool.false_eq_true, if_false] at pays ⊢
        omega
      · simp only [working, Bool.toNat_true, if_true] at pays ⊢
        omega

theorem Draining.exists_done (initially : draining.holds start)
    (moves : ∀ state, draining.holds state → draining.left state ≠ 0 → ∃ label after events,
      permitted label ∧ work state label = true ∧ step state label = some (after, events)) :
    ∃ steps final, Run step start steps final ∧ (∀ taken ∈ steps, work taken.before taken.label = true) ∧
      draining.holds final ∧ draining.left final = 0 ∧ steps.length ≤ draining.left start := by
  induction bound : draining.left start using Nat.strongRecOn generalizing start with
  | ind left ih =>
      by_cases done : draining.left start = 0
      · exact ⟨[], start, .nil, by simp, initially, done, Nat.zero_le _⟩
      · obtain ⟨label, next, events, allowed, working, stepped⟩ := moves start initially done
        obtain ⟨still, pays⟩ := draining.pays _ _ _ _ initially allowed stepped
        rw [working, Bool.toNat_true] at pays
        obtain ⟨steps, final, run, all, holds, zero, short⟩ := ih _ (by omega) still rfl
        refine ⟨_, final, (Run.single stepped).append run, ?_, holds, zero, ?_⟩
        · simpa [working] using all
        · simp only [List.singleton_append, List.length_cons]
          omega

/-- Wherever a run of permitted steps has got to, the rest of the work can still be done, and within
what was left at its start. -/
theorem Draining.completes (run : Run step start steps final)
    (allowed : ∀ taken ∈ steps, permitted taken.label) (initially : draining.holds start)
    (moves : ∀ state, draining.holds state → draining.left state ≠ 0 → ∃ label after events,
      permitted label ∧ work state label = true ∧ step state label = some (after, events)) :
    ∃ rest last, Run step final rest last ∧ (∀ taken ∈ rest, work taken.before taken.label = true) ∧
      draining.holds last ∧ draining.left last = 0 ∧
      steps.countP (fun taken => work taken.before taken.label) + rest.length ≤ draining.left start := by
  obtain ⟨still, bound⟩ := draining.count_le run allowed initially
  obtain ⟨rest, last, back, all, holds, done, short⟩ := draining.exists_done still moves
  exact ⟨rest, last, back, all, holds, done, by omega⟩

end Library.Runs
