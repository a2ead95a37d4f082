import Mathlib.Data.Finset.Basic

/-! Acquisitions and releases under names that are given out again.

A name is in order when it is acquired and released in turn. What is held under
it at the end is what its last acquisition has not been released.
-/

set_option autoImplicit false

namespace Library.Ledger

inductive Mark where
  | acquired
  | released
  deriving DecidableEq

structure Entry (K : Type) where
  mark : Mark
  key : K
  deriving DecidableEq

variable {K : Type} [DecidableEq K]

abbrev acquired (key : K) : Entry K := ⟨.acquired, key⟩

abbrev released (key : K) : Entry K := ⟨.released, key⟩

/-- Acquired and released in turn, and held at the end or not. -/
inductive InTurn : Bool → List Mark → Prop where
  | nil : InTurn false []
  | acquires {marks : List Mark} : InTurn false marks → InTurn true (marks ++ [.acquired])
  | releases {marks : List Mark} : InTurn true marks → InTurn false (marks ++ [.released])

/-- Every acquisition has been released, once, and nothing else has been. -/
abbrev Settled (marks : List Mark) : Prop := InTurn false marks

theorem InTurn.held_iff {held : Bool} {marks : List Mark} (inTurn : InTurn held marks) :
    held = true ↔ marks.getLast? = some .acquired := by
  cases inTurn with
  | nil => simp
  | acquires | releases => simp

theorem InTurn.unique {held other : Bool} {marks : List Mark} (inTurn : InTurn held marks)
    (again : InTurn other marks) : held = other :=
  Bool.eq_iff_iff.mpr (inTurn.held_iff.trans again.held_iff.symm)

def marks (key : K) (entries : List (Entry K)) : List Mark :=
  entries.filterMap fun entry => if entry.key = key then some entry.mark else none

theorem marks_append (key : K) (first rest : List (Entry K)) :
    marks key (first ++ rest) = marks key first ++ marks key rest :=
  List.filterMap_append

theorem marks_snoc (key other : K) (mark : Mark) (entries : List (Entry K)) :
    marks other (entries ++ [⟨mark, key⟩]) =
      if other = key then marks other entries ++ [mark] else marks other entries := by
  rw [marks_append]
  by_cases own : other = key
  · simp [marks, own]
  · simp [marks, own, Ne.symm own]

/-- All keys are in order, and these are the ones held now. -/
def Holding (held : K → Bool) (entries : List (Entry K)) : Prop :=
  ∀ key, InTurn (held key) (marks key entries)

variable {held next : K → Bool} {entries : List (Entry K)}

theorem holding_nil : Holding (fun _ : K => false) [] := fun _ => .nil

theorem Holding.congr (holding : Holding held entries) (same : ∀ key, next key = held key) :
    Holding next entries := fun key => same key ▸ holding key

theorem Holding.acquire {key : K} (holding : Holding held entries) (free : held key = false)
    (after : ∀ other, next other = if other = key then true else held other) :
    Holding next (entries ++ [acquired key]) := by
  intro other
  rw [marks_snoc, after]
  by_cases own : other = key
  · subst own
    rw [if_pos rfl, if_pos rfl]
    exact .acquires (free ▸ holding other)
  · rw [if_neg own, if_neg own]
    exact holding other

theorem Holding.release {key : K} (holding : Holding held entries) (taken : held key = true)
    (after : ∀ other, next other = if other = key then false else held other) :
    Holding next (entries ++ [released key]) := by
  intro other
  rw [marks_snoc, after]
  by_cases own : other = key
  · subst own
    rw [if_pos rfl, if_pos rfl]
    exact .releases (taken ▸ holding other)
  · rw [if_neg own, if_neg own]
    exact holding other

theorem Holding.releaseAll {keys : List K} (holding : Holding held entries) (once : keys.Nodup)
    (taken : ∀ key ∈ keys, held key = true)
    (after : ∀ other, next other = if other ∈ keys then false else held other) :
    Holding next (entries ++ keys.map released) := by
  induction keys generalizing entries held with
  | nil =>
      rw [List.map_nil, List.append_nil]
      exact holding.congr fun other => by simpa using after other
  | cons key keys ih =>
      obtain ⟨absent, once⟩ := List.nodup_cons.mp once
      have first : Holding (fun other => if other = key then false else held other) (entries ++ [released key]) :=
        holding.release (taken key List.mem_cons_self) fun _ => rfl
      rw [List.map_cons, List.append_cons]
      refine ih first once (fun other member => ?_) fun other => ?_
      · have different : other ≠ key := fun same => absent (same ▸ member)
        rw [if_neg different]
        exact taken other (List.mem_cons_of_mem _ member)
      · rw [after]
        by_cases own : other = key
        · simp [own]
        · simp [own]

theorem Holding.settled_iff (holding : Holding held entries) :
    (∀ key, Settled (marks key entries)) ↔ ∀ key, held key = false :=
  forall_congr' fun key => ⟨fun settled => (holding key).unique settled, fun free => by
    rw [Settled, ← free]
    exact holding key⟩

section Slot
variable {holds now : K → Prop} {slot : Option K}

/-- An owner remembers one key, and holds that one. -/
def Owns (holds : K → Prop) (slot : Option K) : Prop := ∀ key, slot = some key → holds key

def Tight (holds : K → Prop) (slot : Option K) : Prop := ∀ key, holds key → slot = some key

omit [DecidableEq K] in
theorem Owns.slot_eq_none (owns : Owns holds slot) (nothing : ∀ key, ¬ holds key) : slot = none :=
  Option.eq_none_iff_forall_ne_some.mpr fun key same => nothing key (owns key same)

omit [DecidableEq K] in
theorem tight_none : Tight holds none ↔ ∀ key, ¬ holds key := by
  simp [Tight]

omit [DecidableEq K] in
theorem Owns.tight_forget (owns : Owns holds slot) :
    Tight holds none ↔ Tight holds slot ∧ slot = none := by
  rw [tight_none]
  constructor
  · exact fun nothing => ⟨fun key held => absurd held (nothing key), owns.slot_eq_none nothing⟩
  · rintro ⟨tight, rfl⟩
    exact tight_none.mp tight

omit [DecidableEq K] in
theorem Owns.tight_replace (owns : Owns holds slot) {key : K} (fresh : ¬ holds key)
    (added : ∀ other, now other ↔ other = key ∨ holds other) :
    Tight now (some key) ↔ Tight holds slot ∧ slot = none := by
  rw [← owns.tight_forget, tight_none]
  constructor
  · intro tight other held
    obtain rfl := Option.some.inj (tight other ((added other).mpr (.inr held)))
    exact fresh held
  · intro nothing other held
    rw [((added other).mp held).resolve_right (nothing other)]

omit [DecidableEq K] in
theorem tight_release (removed : ∀ other, now other ↔ holds other ∧ slot ≠ some other) :
    Tight now none ↔ Tight holds slot := by
  rw [tight_none]
  refine forall_congr' fun other => ?_
  rw [removed]
  tauto

end Slot

end Library.Ledger
