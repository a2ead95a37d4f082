import Mathlib.Algebra.BigOperators.Fin
import Mathlib.Data.Finite.Sigma
import Mathlib.Data.Finite.Sum
import Mathlib.SetTheory.Cardinal.Finite
import ZmqPlayground.Library.Worklist

/-! Walks of a multigraph, which is given by the list of the successors of each vertex.

An edge is a position in such a list, so that a successor that is listed twice is
reached by two edges. The walks from an item are as many as the items a worklist
adds because of it.
-/

set_option autoImplicit false

namespace Library.Walks

open Library.Worklist

variable {A : Type}

/-- The walks of at least one edge. -/
inductive Walk (next : A → List A) : A → A → Type where
  | edge {before last : A} (position : Fin (next before).length) (ends : (next before)[position] = last) :
      Walk next before last
  | step {before last : A} (position : Fin (next before).length)
      (rest : Walk next (next before)[position] last) : Walk next before last

variable {next : A → List A}

/-- A walk is its first edge, and another walk unless it ends with that. -/
def Walk.split (before last : A) : Walk next before last ≃
    Σ position : Fin (next before).length,
      PLift ((next before)[position] = last) ⊕ Walk next (next before)[position] last where
  toFun
    | .edge position ends => ⟨position, .inl ⟨ends⟩⟩
    | .step position rest => ⟨position, .inr rest⟩
  invFun
    | ⟨position, .inl ends⟩ => .edge position ends.down
    | ⟨position, .inr rest⟩ => .step position rest
  left_inv walk := by cases walk <;> rfl
  right_inv := by
    rintro ⟨position, ends | rest⟩
    · rfl
    · rfl

variable [DecidableEq A]

theorem card_ends (item last : A) : Nat.card (PLift (item = last)) = if last = item then 1 else 0 := by
  have : Subsingleton (PLift (item = last)) := ⟨fun ⟨_⟩ ⟨_⟩ => rfl⟩
  split
  · rename_i same
    have : Nonempty (PLift (item = last)) := ⟨⟨same.symm⟩⟩
    exact Nat.card_unique
  · rename_i different
    have : IsEmpty (PLift (item = last)) := ⟨fun ⟨same⟩ => different same.symm⟩
    exact Nat.card_of_isEmpty

/-- Each walk from an item adds its last vertex once. -/
theorem card_walk {n : ℕ} {first : A} (within : Within next n first) (last : A) :
    Finite (Walk next first last) ∧ Nat.card (Walk next first last) = (offspring next n first).count last := by
  induction n generalizing first with
  | zero =>
      rw [Within] at within
      have edgeless : IsEmpty (Fin (next first).length) := by
        rw [within]
        exact Fin.isEmpty
      have none : IsEmpty (Walk next first last) := (Walk.split first last).isEmpty
      exact ⟨inferInstance, Nat.card_of_isEmpty⟩
  | succ n ih =>
      have below : ∀ position : Fin (next first).length, Finite (Walk next (next first)[position] last) ∧
          Nat.card (Walk next (next first)[position] last) =
            (offspring next n (next first)[position]).count last :=
        fun position => ih (within _ (List.getElem_mem _))
      have finite := fun position => (below position).1
      apply And.intro (Finite.of_equiv _ (Walk.split first last).symm)
      rw [Nat.card_congr (Walk.split first last), Nat.card_sigma]
      calc ∑ position : Fin (next first).length,
            Nat.card (PLift ((next first)[position] = last) ⊕ Walk next (next first)[position] last)
          = ∑ position : Fin (next first).length,
              ((next first)[position] ::ₘ offspring next n (next first)[position]).count last := by
            apply Finset.sum_congr rfl
            intro position _
            rw [Nat.card_sum, card_ends, (below position).2, Multiset.count_cons, add_comm]
        _ = ((next first).map fun added => (added ::ₘ offspring next n added).count last).sum :=
            Fin.sum_univ_fun_getElem (next first) fun added => (added ::ₘ offspring next n added).count last
        _ = (offspring next (n + 1) first).count last := by
            rw [offspring, ← Multiset.coe_countAddMonoidHom, map_list_sum, List.map_map]
            rfl

end Library.Walks
