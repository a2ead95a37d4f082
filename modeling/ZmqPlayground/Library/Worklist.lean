import Mathlib.Algebra.BigOperators.Group.Multiset.Basic
import Mathlib.Algebra.GroupWithZero.Nat
import Mathlib.Data.Fintype.Card
import Mathlib.Data.Set.Finite.Basic
import ZmqPlayground.Library.Draining

/-! Working off a collection of items, each of which may add further ones.

The items are taken in any order. What a run adds in all does not depend on that
order, and it is bounded exactly when no item leads back to itself.
-/

set_option autoImplicit false

namespace Library.Worklist

open Library.Runs

variable {A : Type} (next : A → List A)

/-- `after` is added when `before` is taken. -/
def Feeds (before after : A) : Prop := after ∈ next before

/-- No chain of additions from the item is longer than `n`. -/
def Within : ℕ → A → Prop
  | 0, item => next item = []
  | n + 1, item => ∀ added ∈ next item, Within n added

/-- All that is added because of an item, up to chains of length `n`. -/
def offspring : ℕ → A → Multiset A
  | 0, _ => 0
  | n + 1, item => ((next item).map fun added => added ::ₘ offspring n added).sum

variable {next}

theorem Within.succ {n : ℕ} {item : A} (within : Within next n item) : Within next (n + 1) item := by
  induction n generalizing item with
  | zero =>
      intro added member
      rw [Within] at within
      simp [within] at member
  | succ n ih => exact fun added member => ih (within added member)

theorem Within.mono {n m : ℕ} {item : A} (within : Within next n item) (le : n ≤ m) :
    Within next m item := by
  induction le with
  | refl => exact within
  | step _ ih => exact ih.succ

theorem Within.feeds {n : ℕ} {before after : A} (within : Within next n before)
    (feeds : Feeds next before after) : Within next n after := by
  cases n with
  | zero =>
      rw [Within] at within
      simp [Feeds, within] at feeds
  | succ n => exact (within after feeds).succ

theorem offspring_succ {n : ℕ} {item : A} (within : Within next n item) :
    offspring next (n + 1) item = offspring next n item := by
  induction n generalizing item with
  | zero =>
      rw [Within] at within
      simp [offspring, within]
  | succ n ih =>
      rw [offspring, offspring]
      congr 1
      refine List.map_congr_left fun added member => ?_
      rw [ih (within added member)]

theorem offspring_unfold {n : ℕ} {item : A} (within : Within next n item) :
    offspring next n item =
      ((next item).map fun added => added ::ₘ offspring next n added).sum := by
  rw [← offspring_succ within, offspring]

/-! The chains below an item are bounded when it is accessible, and conversely. -/

theorem Within.acc {n : ℕ} {item : A} (within : Within next n item) :
    Acc (fun after before => Feeds next before after) item := by
  induction n generalizing item with
  | zero =>
      rw [Within] at within
      exact .intro _ fun after feeds => by simp [Feeds, within] at feeds
  | succ n ih => exact .intro _ fun after feeds => ih (within after feeds)

theorem exists_within_of_all {items : List A} (each : ∀ item ∈ items, ∃ n, Within next n item) :
    ∃ n, ∀ item ∈ items, Within next n item := by
  induction items with
  | nil => exact ⟨0, by simp⟩
  | cons item items ih =>
      obtain ⟨n, first⟩ := each item (by simp)
      obtain ⟨m, rest⟩ := ih fun other member => each other (by simp [member])
      refine ⟨max n m, fun other member => ?_⟩
      rcases List.mem_cons.mp member with rfl | member
      · exact first.mono (le_max_left n m)
      · exact (rest other member).mono (le_max_right n m)

theorem exists_within_of_acc {item : A}
    (accessible : Acc (fun after before => Feeds next before after) item) :
    ∃ n, Within next n item := by
  induction accessible with
  | intro item _ ih =>
      obtain ⟨n, all⟩ := exists_within_of_all ih
      exact ⟨n + 1, all⟩

theorem not_cycle_of_acc {item : A}
    (accessible : Acc (fun after before => Feeds next before after) item) :
    ¬ Relation.TransGen (Feeds next) item item := by
  have closed := acc_transGen_iff.mpr accessible
  intro cycle
  have below : Relation.TransGen (fun after before => Feeds next before after) item item :=
    Relation.transGen_swap.mpr cycle
  clear accessible cycle
  induction closed with
  | intro item _ ih => exact ih item below below

theorem Within.acyclic {n : ℕ} {start item : A} (within : Within next n start)
    (reached : Relation.ReflTransGen (Feeds next) start item) : ¬ Relation.TransGen (Feeds next) item item := by
  have bounded : Within next n item := by
    induction reached with
    | refl => exact within
    | tail _ feeds ih => exact ih.feeds feeds
  exact not_cycle_of_acc bounded.acc

/-- With finitely many items to be reached, chains are bounded unless one of them is a cycle. -/
theorem exists_within_iff {start : A}
    (finite : {item | Relation.ReflTransGen (Feeds next) start item}.Finite) :
    (∃ n, Within next n start) ↔
      ∀ item, Relation.ReflTransGen (Feeds next) start item →
        ¬ Relation.TransGen (Feeds next) item item := by
  constructor
  · exact fun ⟨n, within⟩ item reached => within.acyclic reached
  · intro acyclic
    apply exists_within_of_acc
    -- Without a cycle, being further down a chain is a strict order on the finitely many reached items.
    let Reached := {item | Relation.ReflTransGen (Feeds next) start item}
    have : Finite Reached := finite.to_subtype
    let below : Reached → Reached → Prop := fun after before =>
      Relation.TransGen (Feeds next) before.1 after.1
    have : IsTrans Reached below := ⟨fun _ _ _ first second => second.trans first⟩
    have : Std.Irrefl below := ⟨fun item => acyclic item.1 item.2⟩
    have founded : WellFounded below := Finite.wellFounded_of_trans_of_irrefl below
    -- Well-foundedness on the reached items lifts to accessibility among all items.
    have lifted : ∀ item : Reached, Acc (fun after before => Feeds next before after) item.1 := by
      intro item
      induction item using founded.induction with
      | _ item ih =>
          exact .intro _ fun after feeds => ih ⟨after, item.2.tail feeds⟩ (.single feeds)
    exact lifted ⟨start, .refl⟩

theorem sum_map_cons (items : List A) (below : A → Multiset A) :
    (items.map fun item => item ::ₘ below item).sum = (items : Multiset A) + (items.map below).sum := by
  induction items with
  | nil => rfl
  | cons item items ih =>
      rw [List.map_cons, List.sum_cons, ih, List.map_cons, List.sum_cons, ← Multiset.cons_coe]
      simp only [Multiset.cons_add, Multiset.cons_inj_right]
      exact add_left_comm _ _ _

theorem offspring_eq_zero {item : A} (empty : next item = []) (n : ℕ) : offspring next n item = 0 := by
  cases n with
  | zero => rfl
  | succ n => simp [offspring, empty]

theorem mem_sum_map {items : List A} {below : A → Multiset A} {other : A} :
    other ∈ (items.map below).sum ↔ ∃ item ∈ items, other ∈ below item := by
  induction items with
  | nil => simp
  | cons first rest ih => simp [ih]

theorem offspring_induction (holds : A → Prop)
    (passes : ∀ item, holds item → ∀ added ∈ next item, holds added) {n : ℕ} {item : A}
    (initially : holds item) : ∀ other ∈ offspring next n item, holds other := by
  induction n generalizing item with
  | zero => exact fun other member => absurd member (Multiset.notMem_zero other)
  | succ n ih =>
      intro other member
      obtain ⟨added, feeds, member⟩ := mem_sum_map.mp member
      rcases Multiset.mem_cons.mp member with rfl | below
      · exact passes item initially other feeds
      · exact ih (passes item initially added feeds) other below

section Lift
variable {B : Type} {next' : B → List B} {f : A → B}

theorem within_map (follows : ∀ item, next' (f item) = (next item).map f) {n : ℕ} {item : A} :
    Within next' n (f item) ↔ Within next n item := by
  induction n generalizing item with
  | zero => simp [Within, follows]
  | succ n ih => simp [Within, follows, ih]

theorem offspring_map (follows : ∀ item, next' (f item) = (next item).map f) (n : ℕ) (item : A) :
    offspring next' n (f item) = (offspring next n item).map f := by
  induction n generalizing item with
  | zero => rfl
  | succ n ih =>
      rw [offspring, offspring, follows, ← Multiset.coe_mapAddMonoidHom, map_list_sum, List.map_map, List.map_map]
      congr 1
      refine List.map_congr_left fun added _ => ?_
      simp [ih]

end Lift

variable [DecidableEq A]

instance Within.decidable : (n : ℕ) → (item : A) → Decidable (Within next n item)
  | 0, item => inferInstanceAs (Decidable (next item = []))
  | n + 1, item =>
      have := Within.decidable n
      inferInstanceAs (Decidable (∀ added ∈ next item, Within next n added))

theorem count_offspring {n : ℕ} {item : A} (within : Within next n item) (target : A) :
    (offspring next n item).count target = ((next item).map fun added =>
      (if added = target then 1 else 0) + (offspring next n added).count target).sum := by
  rw [offspring_unfold within, ← Multiset.coe_countAddMonoidHom, map_list_sum, List.map_map]
  congr 1
  refine List.map_congr_left fun added _ => ?_
  simp only [Function.comp_apply, Multiset.coe_countAddMonoidHom, Multiset.count_cons, eq_comm (a := target)]
  exact add_comm _ _

variable (next) in
/-- One item is taken; what it adds is emitted and becomes pending. -/
def step : Step (Multiset A) A A := fun pending item =>
  if item ∈ pending then some (pending.erase item + next item, next item) else none

theorem step_eq {pending after : Multiset A} {item : A} {added : List A}
    (stepped : step next pending item = some (after, added)) :
    item ∈ pending ∧ after = pending.erase item + (next item : Multiset A) ∧ added = next item := by
  rw [step] at stepped
  split at stepped
  · rename_i member
    cases stepped
    exact ⟨member, rfl, rfl⟩
  · cases stepped

/-- What was added and what the pending items still lead to is the same in every state. -/
theorem run_offspring {n : ℕ} {start final : Multiset A} {steps : List (Taken (Multiset A) A A)}
    (run : Run (step next) start steps final) (within : ∀ item ∈ start, Within next n item) :
    (∀ item ∈ final, Within next n item) ∧
      (trace steps : Multiset A) + (final.map (offspring next n)).sum =
        (start.map (offspring next n)).sum := by
  induction run with
  | nil => exact ⟨within, by simp⟩
  | @snoc steps pending _ item _ _ stepped ih =>
      obtain ⟨bounded, conserved⟩ := ih
      obtain ⟨member, rfl, rfl⟩ := step_eq stepped
      refine ⟨fun other found => ?_, ?_⟩
      · rcases Multiset.mem_add.mp found with old | added
        · exact bounded other (Multiset.mem_of_mem_erase old)
        · exact (bounded item member).feeds (Multiset.mem_coe.mp added)
      · -- What the item leads to is what it adds now and what that leads to.
        have split : (pending.map (offspring next n)).sum =
            offspring next n item + ((pending.erase item).map (offspring next n)).sum := by
          conv_lhs => rw [← Multiset.cons_erase member]
          rw [Multiset.map_cons, Multiset.sum_cons]
        rw [← conserved, split, offspring_unfold (bounded item member), sum_map_cons,
          trace_append, trace_singleton, Multiset.map_add, Multiset.sum_add, ← Multiset.coe_add,
          Multiset.map_coe, Multiset.sum_coe]
        simp only [add_assoc, add_left_comm, add_comm]

theorem run_taken {start final : Multiset A} {steps : List (Taken (Multiset A) A A)}
    (run : Run (step next) start steps final) :
    (steps.map (·.label) : Multiset A) + final = start + (trace steps : Multiset A) := by
  induction run with
  | nil => simp
  | @snoc steps pending _ item _ _ stepped ih =>
      obtain ⟨member, rfl, rfl⟩ := step_eq stepped
      have taken : ({item} : Multiset A) + pending.erase item = pending := Multiset.cons_erase member
      rw [trace_append, trace_singleton, List.map_append, ← Multiset.coe_add, ← Multiset.coe_add]
      calc (steps.map (·.label) : Multiset A) + {item} + (pending.erase item + (next item : Multiset A))
          = (steps.map (·.label) : Multiset A) + ({item} + pending.erase item) + (next item : Multiset A) := by
            simp only [add_assoc]
        _ = start + ((trace steps : Multiset A) + (next item : Multiset A)) := by
            rw [taken, ih, add_assoc]

theorem run_complete {n : ℕ} {start : A} {final : Multiset A} {steps : List (Taken (Multiset A) A A)}
    (within : Within next n start) (run : Run (step next) {start} steps final) :
    steps.length ≤ 1 + (offspring next n start).card ∧ (trace steps : Multiset A) ≤ offspring next n start ∧
      (final = 0 → (trace steps : Multiset A) = offspring next n start ∧
        (steps.map (·.label) : Multiset A) = start ::ₘ offspring next n start) := by
  have conserved := (run_offspring run (by simpa using within)).2
  rw [Multiset.map_singleton, Multiset.sum_singleton] at conserved
  have le : (trace steps : Multiset A) ≤ offspring next n start := conserved ▸ Multiset.le_add_right _ _
  have balance := run_taken run
  refine ⟨?_, le, ?_⟩
  · have taken := congrArg Multiset.card balance
    have fewer := Multiset.card_le_card le
    simp only [Multiset.card_add, Multiset.coe_card, Multiset.card_singleton, List.length_map] at taken fewer
    omega
  · rintro rfl
    rw [Multiset.map_zero, Multiset.sum_zero, add_zero] at conserved
    rw [add_zero, conserved, Multiset.singleton_add] at balance
    exact ⟨conserved, balance⟩

theorem exists_long_run {n : ℕ} {pending : Multiset A} {item : A} (member : item ∈ pending)
    (unbounded : ¬ Within next n item) :
    ∃ steps final, Run (step next) pending steps final ∧ n < (trace steps).length := by
  have taken : step next pending item =
      some (pending.erase item + (next item : Multiset A), next item) := by
    rw [step, if_pos member]
  induction n generalizing pending item with
  | zero =>
      refine ⟨_, _, .single taken, ?_⟩
      rw [trace_singleton]
      exact List.length_pos_iff.mpr unbounded
  | succ n ih =>
      rw [Within] at unbounded
      push Not at unbounded
      obtain ⟨added, feeds, unbounded⟩ := unbounded
      have pendingNext : added ∈ pending.erase item + (next item : Multiset A) :=
        Multiset.mem_add.mpr (.inr (Multiset.mem_coe.mpr feeds))
      obtain ⟨steps, final, run, long⟩ := ih pendingNext unbounded (by rw [step, if_pos pendingNext])
      refine ⟨[⟨pending, item, next item⟩] ++ steps, final, (Run.single taken).append run, ?_⟩
      rw [trace_append, trace_singleton, List.length_append]
      have some_added := List.length_pos_of_mem feeds
      show n + 1 < (next item).length + (trace steps).length
      omega

/-- What the runs from an item add is bounded unless they can reach a cycle. -/
theorem bounded_iff_not_cycle {start : A}
    (finite : {item | Relation.ReflTransGen (Feeds next) start item}.Finite) :
    (∃ bound, ∀ steps final, Run (step next) {start} steps final → (trace steps).length ≤ bound) ↔
      ∀ item, Relation.ReflTransGen (Feeds next) start item →
        ¬ Relation.TransGen (Feeds next) item item := by
  rw [← exists_within_iff finite]
  constructor
  · -- A run that is longer than the bound would follow a chain that is.
    rintro ⟨bound, bounded⟩
    by_contra unbounded
    push Not at unbounded
    obtain ⟨steps, final, run, long⟩ :=
      exists_long_run (Multiset.mem_singleton_self start) (unbounded bound)
    have le := bounded steps final run
    omega
  · rintro ⟨n, within⟩
    refine ⟨(offspring next n start).card, fun steps final run => ?_⟩
    simpa using Multiset.card_le_card (run_complete within run).2.1

section Feed

variable (next) in
/-- An item with all that it leads to. -/
def family (n : ℕ) (item : A) : Multiset A := item ::ₘ offspring next n item

omit [DecidableEq A] in
theorem family_unfold {n : ℕ} {item : A} (within : Within next n item) :
    family next n item = item ::ₘ ((next item).map (family next n)).sum := by
  rw [family, offspring_unfold within]
  rfl

theorem sum_family_step {n : ℕ} {before after : Multiset A} {item : A} {added : List A}
    (within : ∀ pending ∈ before, Within next n pending)
    (stepped : step next before item = some (after, added)) :
    (∀ pending ∈ after, Within next n pending) ∧
      item ::ₘ (after.map (family next n)).sum = (before.map (family next n)).sum := by
  obtain ⟨member, rfl, rfl⟩ := step_eq stepped
  refine ⟨fun other found => ?_, ?_⟩
  · rcases Multiset.mem_add.mp found with old | fresh
    · exact within other (Multiset.mem_of_mem_erase old)
    · exact (within item member).feeds (Multiset.mem_coe.mp fresh)
  · conv_rhs => rw [← Multiset.cons_erase member]
    rw [Multiset.map_cons, Multiset.sum_cons, family_unfold (within item member), Multiset.map_add,
      Multiset.sum_add, Multiset.map_coe, Multiset.sum_coe, Multiset.cons_add, add_comm]

theorem exists_emptied {n : ℕ} {start : Multiset A} (within : ∀ item ∈ start, Within next n item) :
    ∃ steps, Run (step next) start steps 0 := by
  let draining : Draining (step next) (fun _ => True) (fun _ _ => true) :=
    { holds := fun pending => ∀ item ∈ pending, Within next n item
      left := fun pending => ((pending.map (family next n)).sum).card
      pays := fun before item after added holds _ stepped => by
        obtain ⟨still, paid⟩ := sum_family_step holds stepped
        exact ⟨still, by rw [← paid, Multiset.card_cons]; rfl⟩ }
  obtain ⟨steps, final, run, -, -, empty, -⟩ := draining.exists_done within fun pending holds some_left => by
    obtain ⟨item, member⟩ := Multiset.exists_mem_of_ne_zero fun none : pending = 0 =>
      some_left (by simp [draining, none])
    exact ⟨item, _, _, trivial, rfl, if_pos member⟩
  refine ⟨steps, ?_⟩
  have none : final = 0 := by
    by_contra occupied
    obtain ⟨item, member⟩ := Multiset.exists_mem_of_ne_zero occupied
    have counted : ((final.map (family next n)).sum).card = 0 := empty
    rw [← Multiset.cons_erase member, Multiset.map_cons, Multiset.sum_cons, Multiset.card_add, family,
      Multiset.card_cons] at counted
    omega
  exact none ▸ run

/-- Items are taken, and others come in from outside. -/
inductive Turn (A : Type) where
  | takes (item : A)
  | adds (items : List A)

def Turn.taken : Turn A → List A
  | .takes item => [item]
  | .adds _ => []

def Turn.added : Turn A → List A
  | .takes _ => []
  | .adds items => items

variable (next) in
def feed : Step (Multiset A) (Turn A) A
  | pending, .takes item => step next pending item
  | pending, .adds items => some (pending + items, items)

/-- What has been taken, with the families of what is left, is the families of what has come in: each
item from outside leads to what it would lead to alone. -/
theorem run_families {n : ℕ} {start final : Multiset A} {steps : List (Taken (Multiset A) (Turn A) A)}
    (run : Run (feed next) start steps final) (within : ∀ item ∈ start, Within next n item)
    (bounded : ∀ turn ∈ steps, ∀ item ∈ turn.label.added, Within next n item) :
    (∀ item ∈ final, Within next n item) ∧
      (steps.flatMap (·.label.taken) : Multiset A) + (final.map (family next n)).sum =
        (start.map (family next n)).sum +
          ((steps.flatMap (·.label.added)).map (family next n)).sum := by
  induction run with
  | nil => exact ⟨within, by simp⟩
  | @snoc steps before after label events _ stepped ih =>
      simp only [List.mem_append, List.mem_singleton] at bounded
      obtain ⟨now, balance⟩ := ih fun turn member => bounded turn (.inl member)
      have fresh := bounded ⟨before, label, events⟩ (.inr rfl)
      rw [List.flatMap_append, List.flatMap_append, List.map_append, List.sum_append, ← add_assoc,
        ← balance, List.flatMap_singleton, List.flatMap_singleton, ← Multiset.coe_add]
      cases label with
      | takes item =>
          obtain ⟨still, paid⟩ := sum_family_step now stepped
          refine ⟨still, ?_⟩
          rw [← paid, Turn.taken, Turn.added, List.map_nil, List.sum_nil, add_zero, add_assoc]
          rfl
      | adds items =>
          cases stepped
          refine ⟨fun item member => ?_, ?_⟩
          · rcases Multiset.mem_add.mp member with old | added
            · exact now item old
            · exact fresh item (Multiset.mem_coe.mp added)
          · rw [Turn.taken, Turn.added, Multiset.map_add, Multiset.sum_add, Multiset.map_coe,
              Multiset.sum_coe, Multiset.coe_nil, add_zero, add_assoc]

end Feed

section Toll

omit [DecidableEq A]

/-- How many items come to be taken because of an item, itself among them. -/
def toll (next : A → List A) (n : ℕ) (item : A) : ℕ := (family next n item).card

theorem card_sum_map (items : List A) (below : A → Multiset A) :
    ((items.map below).sum).card = (items.map fun item => (below item).card).sum := by
  induction items with
  | nil => rfl
  | cons first rest ih => rw [List.map_cons, List.sum_cons, Multiset.card_add, ih, List.map_cons, List.sum_cons]

theorem toll_eq {n : ℕ} {item : A} (within : Within next n item) :
    toll next n item = ((next item).map (toll next n)).sum + 1 := by
  rw [toll, family_unfold within, Multiset.card_cons, card_sum_map]
  rfl

/-- An item pays for all that is added because of it, also where that is only a part of what it may
add. -/
theorem sum_toll_lt {n : ℕ} {item : A} (within : Within next n item) {added : List A}
    (part : (added : Multiset A) ≤ next item) : (added.map (toll next n)).sum < toll next n item := by
  rw [toll_eq within, Nat.lt_succ_iff, ← Multiset.sum_coe, ← Multiset.sum_coe, ← Multiset.map_coe,
    ← Multiset.map_coe]
  obtain ⟨rest, same⟩ := Multiset.le_iff_exists_add.mp part
  rw [same, Multiset.map_add, Multiset.sum_add]
  exact Nat.le_add_right _ _

theorem reached_subset {items : List A} (all : ∀ item, next item ≠ [] → item ∈ items) {start other : A}
    (reach : Relation.ReflTransGen (Feeds next) start other) :
    other ∈ start :: items.flatMap next := by
  rcases Relation.ReflTransGen.cases_tail reach with rfl | ⟨before, -, feeds⟩
  · exact List.mem_cons_self
  · exact List.mem_cons_of_mem _ (List.mem_flatMap.mpr
      ⟨before, all before (List.ne_nil_of_mem feeds), feeds⟩)

theorem exists_within_all {items : List A} (all : ∀ item, next item ≠ [] → item ∈ items)
    (acyclic : ∀ item, ¬ Relation.TransGen (Feeds next) item item) : ∃ n, ∀ item, Within next n item := by
  have each : ∀ item ∈ items, ∃ n, Within next n item := by
    intro item _
    have finite : {other | Relation.ReflTransGen (Feeds next) item other}.Finite :=
      (item :: items.flatMap next).finite_toSet.subset fun other reach => reached_subset all reach
    exact (exists_within_iff finite).mpr fun other _ => acyclic other
  obtain ⟨n, within⟩ := exists_within_of_all each
  refine ⟨n, fun item => ?_⟩
  by_cases adds : next item = []
  · have ends : Within next 0 item := adds
    exact ends.mono (Nat.zero_le n)
  · exact within item (all item adds)

theorem toll_le {items : List A} (all : ∀ item, next item ≠ [] → item ∈ items) (n : ℕ) (item : A) :
    toll next n item ≤ (items.map (toll next n)).sum + 1 := by
  by_cases adds : next item = []
  · rw [toll, family, offspring_eq_zero adds, Multiset.card_cons, Multiset.card_zero]
    exact Nat.le_add_left _ _
  · obtain ⟨before, rest, rfl⟩ := List.append_of_mem (all item adds)
    rw [List.map_append, List.sum_append, List.map_cons, List.sum_cons]
    omega

end Toll

end Library.Worklist
