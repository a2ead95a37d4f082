import Mathlib.Data.Finset.Basic
import Mathlib.Data.Finset.Dedup
import Mathlib.Data.Finset.Lattice.Lemmas
import Mathlib.Data.List.Infix
import Mathlib.Data.Multiset.AddSub

/-! Items that are added and taken away, one at a time.

They are kept with their numbers in a multiset and without them in a set. To take away
what is not there changes neither.
-/

set_option autoImplicit false

namespace Library

inductive Change (A : Type) where
  | add (item : A)
  | take (item : A)
  deriving DecidableEq

namespace Change

variable {A : Type} [DecidableEq A]

def tallied (items : Multiset A) : Change A → Multiset A
  | .add item => item ::ₘ items
  | .take item => items.erase item

def listed (items : Finset A) : Change A → Finset A
  | .add item => insert item items
  | .take item => items.erase item

def tally (history : List (Change A)) : Multiset A := history.foldl tallied 0

def listing (history : List (Change A)) : Finset A := history.foldl listed ∅

variable (history : List (Change A)) (item other : A)

theorem tally_snoc (change : Change A) : tally (history ++ [change]) = tallied (tally history) change := by
  simp [tally]

theorem listing_snoc (change : Change A) : listing (history ++ [change]) = listed (listing history) change := by
  simp [listing]

theorem foldl_tallied_add (items : Multiset A) (added : List A) :
    (added.map .add).foldl tallied items = added + items := by
  induction added generalizing items with
  | nil => simp
  | cons first added ih =>
      rw [List.map_cons, List.foldl_cons, ih, tallied, Multiset.add_cons, ← Multiset.cons_coe,
        Multiset.cons_add]

theorem foldl_listed_add (items : Finset A) (added : List A) :
    (added.map .add).foldl listed items = added.toFinset ∪ items := by
  induction added generalizing items with
  | nil => simp
  | cons first added ih =>
      rw [List.map_cons, List.foldl_cons, ih, listed, List.toFinset_cons, Finset.union_insert,
        Finset.insert_union]

/-- At the end of the history there is a stretch with more additions than removals, more by at least this. -/
def Exceeds (bound : ℕ) : Prop :=
  ∃ stretch, stretch <:+ history ∧ stretch.count (.take item) + bound < stretch.count (.add item)

variable {history item other} {bound : ℕ}

theorem not_exceeds_nil : ¬ Exceeds [] item bound := by
  rintro ⟨stretch, last, more⟩
  rw [List.suffix_nil.mp last] at more
  simp at more

theorem exceeds_snoc_iff (change : Change A) : Exceeds (history ++ [change]) item bound ↔
    ∃ stretch, stretch <:+ history ∧
      (stretch ++ [change]).count (.take item) + bound < (stretch ++ [change]).count (.add item) := by
  constructor
  · rintro ⟨stretch, last, more⟩
    rcases List.suffix_concat_iff.mp last with rfl | ⟨earlier, rfl, shorter⟩
    · simp at more
    · exact ⟨earlier, shorter, more⟩
  · rintro ⟨stretch, last, more⟩
    exact ⟨stretch ++ [change], List.suffix_concat_iff.mpr (.inr ⟨stretch, rfl, last⟩), more⟩

theorem exceeds_add_zero : Exceeds (history ++ [.add item]) item 0 := by
  rw [exceeds_snoc_iff]
  exact ⟨[], List.nil_suffix, by simp⟩

theorem exceeds_shift {change : Change A} {shifted : ℕ}
    (shift : ∀ stretch : List (Change A),
      (stretch ++ [change]).count (.take item) + bound < (stretch ++ [change]).count (.add item) ↔
        stretch.count (.take item) + shifted < stretch.count (.add item)) :
    Exceeds (history ++ [change]) item bound ↔ Exceeds history item shifted := by
  rw [exceeds_snoc_iff]
  apply exists_congr
  intro stretch
  rw [shift]

theorem exceeds_add_succ_iff :
    Exceeds (history ++ [.add item]) item (bound + 1) ↔ Exceeds history item bound := by
  apply exceeds_shift
  intro stretch
  have kept : (stretch ++ [add item]).count (take item) = stretch.count (take item) := by simp
  have more : (stretch ++ [add item]).count (add item) = stretch.count (add item) + 1 := by simp
  omega

theorem exceeds_take_iff :
    Exceeds (history ++ [.take item]) item bound ↔ Exceeds history item (bound + 1) := by
  apply exceeds_shift
  intro stretch
  have more : (stretch ++ [take item]).count (take item) = stretch.count (take item) + 1 := by simp
  have kept : (stretch ++ [take item]).count (add item) = stretch.count (add item) := by simp
  omega

theorem exceeds_other_iff {change : Change A} (added : change ≠ .add item) (taken : change ≠ .take item) :
    Exceeds (history ++ [change]) item bound ↔ Exceeds history item bound := by
  apply exceeds_shift
  intro stretch
  simp [added, taken]

/-- There are more than so many of an item exactly if it has been added more often than it was taken, by more
than that, in some stretch up to now. What was taken in vain before does not count. -/
theorem lt_count_tally_iff (history : List (Change A)) (item : A) (bound : ℕ) :
    bound < (tally history).count item ↔ Exceeds history item bound := by
  induction history using List.reverseRecOn generalizing bound with
  | nil => simp [tally, not_exceeds_nil]
  | append_singleton history change ih =>
      rw [tally_snoc]
      cases change with
      | add added =>
          by_cases same : added = item
          · subst same
            rw [tallied, Multiset.count_cons_self]
            cases bound with
            | zero => simp [exceeds_add_zero]
            | succ bound => rw [exceeds_add_succ_iff, ← ih, Nat.add_lt_add_iff_right]
          · rw [tallied, Multiset.count_cons_of_ne (Ne.symm same), ih, exceeds_other_iff] <;> simp [same]
      | take taken =>
          by_cases same : taken = item
          · subst same
            rw [tallied, Multiset.count_erase_self, exceeds_take_iff, ← ih]
            omega
          · rw [tallied, Multiset.count_erase_of_ne (Ne.symm same), ih, exceeds_other_iff] <;> simp [same]

/-- The last change of the item, if there is one, is an addition. -/
def Last (history : List (Change A)) (item : A) : Prop :=
  ∃ later, .add item :: later <:+ history ∧ .take item ∉ later

omit [DecidableEq A] in
theorem last_snoc_iff (change : Change A) :
    Last (history ++ [change]) item ↔ change = .add item ∨ Last history item ∧ change ≠ .take item := by
  unfold Last
  constructor
  · rintro ⟨later, last, untaken⟩
    rcases List.suffix_concat_iff.mp last with none | ⟨earlier, same, shorter⟩
    · cases none
    · cases earlier with
      | nil =>
          cases same
          exact .inl rfl
      | cons first earlier =>
          rw [List.cons_append, List.cons.injEq] at same
          obtain ⟨rfl, rfl⟩ := same
          rw [List.mem_append, List.mem_singleton, not_or] at untaken
          exact .inr ⟨⟨earlier, shorter, untaken.1⟩, Ne.symm untaken.2⟩
  · rintro (rfl | ⟨⟨later, last, untaken⟩, other⟩)
    · exact ⟨[], List.suffix_append history _, by simp⟩
    · refine ⟨later ++ [change], ?_, ?_⟩
      · exact List.suffix_concat_iff.mpr (.inr ⟨_, rfl, last⟩)
      · simp [untaken, Ne.symm other]

theorem mem_listing_iff (history : List (Change A)) (item : A) :
    item ∈ listing history ↔ Last history item := by
  induction history using List.reverseRecOn with
  | nil => simp [listing, Last]
  | append_singleton history change ih =>
      rw [listing_snoc, last_snoc_iff, ← ih]
      cases change with
      | add added =>
          by_cases same : item = added <;> simp [listed, same, eq_comm]
      | take taken =>
          by_cases same : item = taken <;> simp [listed, same, eq_comm]

end Change

end Library
