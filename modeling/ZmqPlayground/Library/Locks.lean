import Mathlib.Logic.Hydra
import Mathlib.Logic.Relation
import ZmqPlayground.Library.Runs
import ZmqPlayground.Library.Table

/-! Operations that take several locks, one inside the other.

Each lock guards data of its own. An operation takes its locks in ascending rank before
it touches any data, and touches only what the locks that it still has guard. Such
operations never wait for one another in a circle, and they act as if each were made at
the moment it has its last lock.
-/

set_option autoImplicit false

namespace Library

open Runs

namespace Locking

/-- What an operation does next. Only work looks at the data, and it alone may go on in several ways. -/
inductive Act (Lock : Type) (D : Lock → Type) (Local : Type) where
  | acquires (lock : Lock) (next : Local)
  | releases (lock : Lock) (next : Local)
  | works (effect : (∀ lock, D lock) → (∀ lock, D lock) × Local)
  | ends

section Confined
variable {Lock : Type} {D : Lock → Type}

/-- A change of the data that looks at those of some locks only, and changes no others. -/
structure Confined (locks : List Lock) (change : (∀ lock, D lock) → (∀ lock, D lock)) : Prop where
  frame : ∀ data lock, lock ∉ locks → change data lock = data lock
  reads : ∀ data other, (∀ lock ∈ locks, data lock = other lock) →
    ∀ lock ∈ locks, change data lock = change other lock

theorem Confined.rest (locks : List Lock) : Confined locks (fun data : ∀ lock, D lock => data) :=
  ⟨fun _ _ _ => rfl, fun _ _ same => same⟩

theorem Confined.mono {locks more : List Lock} {change : (∀ lock, D lock) → (∀ lock, D lock)}
    (confined : Confined locks change) (subset : ∀ lock ∈ locks, lock ∈ more) : Confined more change where
  frame data lock outside := confined.frame data lock fun member => outside (subset lock member)
  reads data other same lock member := by
    by_cases inside : lock ∈ locks
    · exact confined.reads data other (fun lock inside => same lock (subset lock inside)) lock inside
    · rw [confined.frame data lock inside, confined.frame other lock inside, same lock member]

theorem Confined.comm {locks others : List Lock} {first second : (∀ lock, D lock) → (∀ lock, D lock)}
    (one : Confined locks first) (two : Confined others second) (disjoint : ∀ lock ∈ locks, lock ∉ others)
    (data : ∀ lock, D lock) : first (second data) = second (first data) := by
  funext lock
  by_cases inside : lock ∈ locks
  · rw [two.frame (first data) lock (disjoint lock inside)]
    exact one.reads _ _ (fun lock inside => two.frame data lock (disjoint lock inside)) lock inside
  · rw [one.frame (second data) lock inside]
    by_cases also : lock ∈ others
    · refine (two.reads _ _ (fun lock also => ?_) lock also).symm
      exact one.frame data lock fun inside => disjoint lock inside also
    · rw [two.frame data lock also, two.frame (first data) lock also, one.frame data lock inside]

end Confined

end Locking

/-- The bodies of the operations: the locks held at each place, the latest first, and whether all locks
have been taken there. -/
structure Locking (Lock : Type) (D : Lock → Type) (Op Local : Type) where
  enter : Op → Local
  act : Local → Locking.Act Lock D Local
  holds : Local → List Lock
  complete : Local → Bool
  rank : Lock → ℕ
  depth : ℕ
  less : Local → Local → Prop
  bounded : ∀ lock, rank lock < depth
  ascending : ∀ here, (holds here).Pairwise fun later earlier => rank earlier < rank later
  founded : WellFounded less
  enters : ∀ op, holds (enter op) = [] ∧ complete (enter op) = false
  acquires : ∀ {here lock next}, act here = .acquires lock next →
    complete here = false ∧ holds next = lock :: holds here ∧ less next here
  releases : ∀ {here lock next}, act here = .releases lock next →
    complete here = true ∧ complete next = true ∧ holds here = lock :: holds next ∧ less next here
  works : ∀ {here effect}, act here = .works effect →
    complete here = true ∧ Locking.Confined (holds here) (fun data => (effect data).1) ∧
      (∀ data other, (∀ lock ∈ holds here, data lock = other lock) → (effect data).2 = (effect other).2) ∧
      ∀ data, complete (effect data).2 = true ∧ holds (effect data).2 = holds here ∧
        less (effect data).2 here
  ends : ∀ {here}, act here = .ends → complete here = true ∧ holds here = []

namespace Locking
variable {Thread Lock Op Local : Type} {D : Lock → Type} (locking : Locking Lock D Op Local)

/-- What is left of a body, worked through without interruption. -/
def outcome (data : ∀ lock, D lock) (here : Local) : ∀ lock, D lock :=
  match found : locking.act here with
  | .acquires _ next =>
      have := (locking.acquires found).2.2
      outcome data next
  | .releases _ next =>
      have := (locking.releases found).2.2.2
      outcome data next
  | .works effect =>
      have := ((locking.works found).2.2.2 data).2.2
      outcome (effect data).1 (effect data).2
  | .ends => data
termination_by locking.founded.wrap here

def perform (data : ∀ lock, D lock) (op : Op) : ∀ lock, D lock := locking.outcome data (locking.enter op)

def performed (data : ∀ lock, D lock) (ops : List (Thread × Op)) : ∀ lock, D lock :=
  ops.foldl (fun data op => locking.perform data op.2) data

theorem performed_append (data : ∀ lock, D lock) (first rest : List (Thread × Op)) :
    locking.performed data (first ++ rest) = locking.performed (locking.performed data first) rest :=
  List.foldl_append

variable {locking} {here next : Local} {lock : Lock}

theorem outcome_acquires (found : locking.act here = .acquires lock next) (data : ∀ lock, D lock) :
    locking.outcome data here = locking.outcome data next := by
  rw [outcome]
  split <;> simp_all

theorem outcome_releases (found : locking.act here = .releases lock next) (data : ∀ lock, D lock) :
    locking.outcome data here = locking.outcome data next := by
  rw [outcome]
  split <;> simp_all

theorem outcome_works {effect : (∀ lock, D lock) → (∀ lock, D lock) × Local}
    (found : locking.act here = .works effect) (data : ∀ lock, D lock) :
    locking.outcome data here = locking.outcome (effect data).1 (effect data).2 := by
  rw [outcome]
  split <;> simp_all

theorem outcome_ends (found : locking.act here = .ends) (data : ∀ lock, D lock) :
    locking.outcome data here = data := by
  rw [outcome]
  split <;> simp_all

theorem confined_outcome (complete : locking.complete here = true) :
    Confined (locking.holds here) fun data => locking.outcome data here := by
  induction here using locking.founded.induction with
  | _ here ih =>
      cases found : locking.act here with
      | acquires lock next =>
          rw [(locking.acquires found).1] at complete
          cases complete
      | releases lock next =>
          obtain ⟨_, after, held, less⟩ := locking.releases found
          simp only [outcome_releases found]
          refine (ih next less after).mono fun lock member => ?_
          rw [held]
          exact List.mem_cons_of_mem _ member
      | works effect =>
          obtain ⟨_, confined, follows, kept⟩ := locking.works found
          simp only [outcome_works found]
          constructor
          · intro data lock outside
            obtain ⟨after, held, less⟩ := kept data
            rw [(ih _ less after).frame _ lock (held ▸ outside), confined.frame data lock outside]
          · intro data other same lock member
            obtain ⟨after, held, less⟩ := kept data
            rw [← follows data other same]
            refine (ih _ less after).reads _ _ (fun lock inside => ?_) lock (held ▸ member)
            exact confined.reads data other same lock (held ▸ inside)
      | ends =>
          simp only [outcome_ends found]
          exact .rest _

theorem rank_lt_of_acquires (found : locking.act here = .acquires lock next) {held : Lock}
    (member : held ∈ locking.holds here) : locking.rank held < locking.rank lock := by
  have ascending := locking.ascending next
  rw [(locking.acquires found).2.1, List.pairwise_cons] at ascending
  exact ascending.1 held member

structure State (Thread Lock : Type) (D : Lock → Type) (Op Local : Type) where
  data : ∀ lock, D lock
  owner : Lock → Option Thread
  calls : Table Thread (Op × Local)

inductive Label (Thread Op : Type) where
  | call (thread : Thread) (op : Op)
  | goes (thread : Thread)

/-- A call has been given its last lock, or has returned. -/
inductive Event (Thread Op : Type) where
  | entered (thread : Thread) (op : Op)
  | returned (thread : Thread) (op : Op)
  deriving DecidableEq

/-- The operations of a trace in the order in which they were given their last locks. -/
def order (events : List (Event Thread Op)) : List (Thread × Op) :=
  events.filterMap fun
    | .entered thread op => some (thread, op)
    | .returned _ _ => none

def returns (events : List (Event Thread Op)) : List (Thread × Op) :=
  events.filterMap fun
    | .returned thread op => some (thread, op)
    | .entered _ _ => none

theorem order_append (first rest : List (Event Thread Op)) : order (first ++ rest) = order first ++ order rest :=
  List.filterMap_append

theorem returns_append (first rest : List (Event Thread Op)) :
    returns (first ++ rest) = returns first ++ returns rest :=
  List.filterMap_append

def initial (data : ∀ lock, D lock) : State Thread Lock D Op Local := ⟨data, fun _ => none, ∅⟩

section Step
variable [DecidableEq Thread] [DecidableEq Lock] (locking)

/-- A thread is held up where the lock it asks for has an owner, and nowhere else. -/
def step : Step (State Thread Lock D Op Local) (Label Thread Op) (Event Thread Op)
  | state, .call thread op =>
      if (state.calls.lookup thread).isNone then
        some ({ state with calls := state.calls.insert thread (op, locking.enter op) }, [])
      else none
  | state, .goes thread => match state.calls.lookup thread with
      | none => none
      | some (op, here) => match locking.act here with
          | .acquires lock next =>
              if (state.owner lock).isNone then
                some ({ state with
                  owner := Function.update state.owner lock (some thread)
                  calls := state.calls.insert thread (op, next) },
                  if locking.complete next then [.entered thread op] else [])
              else none
          | .releases lock next =>
              some ({ state with
                owner := Function.update state.owner lock none
                calls := state.calls.insert thread (op, next) }, [])
          | .works effect =>
              some ({ state with
                data := (effect state.data).1
                calls := state.calls.insert thread (op, (effect state.data).2) }, [])
          | .ends => some ({ state with calls := state.calls.erase thread }, [.returned thread op])

inductive Moved (before : State Thread Lock D Op Local) :
    Label Thread Op → State Thread Lock D Op Local → List (Event Thread Op) → Prop where
  | called {thread : Thread} {op : Op} (idle : before.calls.lookup thread = none) :
      Moved before (.call thread op)
        { before with calls := before.calls.insert thread (op, locking.enter op) } []
  | acquired {thread : Thread} {op : Op} {here next : Local} {lock : Lock}
      (stands : before.calls.lookup thread = some (op, here))
      (found : locking.act here = .acquires lock next) (free : before.owner lock = none) :
      Moved before (.goes thread)
        { before with
          owner := Function.update before.owner lock (some thread)
          calls := before.calls.insert thread (op, next) }
        (if locking.complete next then [.entered thread op] else [])
  | released {thread : Thread} {op : Op} {here next : Local} {lock : Lock}
      (stands : before.calls.lookup thread = some (op, here))
      (found : locking.act here = .releases lock next) :
      Moved before (.goes thread)
        { before with
          owner := Function.update before.owner lock none
          calls := before.calls.insert thread (op, next) } []
  | worked {thread : Thread} {op : Op} {here : Local}
      {effect : (∀ lock, D lock) → (∀ lock, D lock) × Local}
      (stands : before.calls.lookup thread = some (op, here)) (found : locking.act here = .works effect) :
      Moved before (.goes thread)
        { before with
          data := (effect before.data).1
          calls := before.calls.insert thread (op, (effect before.data).2) } []
  | ended {thread : Thread} {op : Op} {here : Local}
      (stands : before.calls.lookup thread = some (op, here)) (found : locking.act here = .ends) :
      Moved before (.goes thread) { before with calls := before.calls.erase thread } [.returned thread op]

variable {locking} {before after : State Thread Lock D Op Local} {label : Label Thread Op}
  {events : List (Event Thread Op)}

theorem step_moved (stepped : locking.step before label = some (after, events)) :
    locking.Moved before label after events := by
  cases label with
  | call thread op =>
      simp only [step, Option.isNone_iff_eq_none, Option.ite_none_right_eq_some, Option.some.injEq,
        Prod.mk.injEq] at stepped
      obtain ⟨idle, rfl, rfl⟩ := stepped
      exact .called idle
  | goes thread =>
      simp only [step] at stepped
      split at stepped
      · cases stepped
      · rename_i op here stands
        split at stepped
        · rename_i lock next found
          simp only [Option.isNone_iff_eq_none, Option.ite_none_right_eq_some, Option.some.injEq,
            Prod.mk.injEq] at stepped
          obtain ⟨free, rfl, rfl⟩ := stepped
          exact .acquired stands found free
        · rename_i lock next found
          cases stepped
          exact .released stands found
        · rename_i effect found
          cases stepped
          exact .worked stands found
        · rename_i found
          cases stepped
          exact .ended stands found

def State.Owned (locking : Locking Lock D Op Local) (state : State Thread Lock D Op Local) : Prop :=
  ∀ lock thread, state.owner lock = some thread ↔
    ∃ op here, state.calls.lookup thread = some (op, here) ∧ lock ∈ locking.holds here

omit [DecidableEq Lock] in
theorem State.Owned.of_lookup {state : State Thread Lock D Op Local} (owned : state.Owned locking)
    {thread : Thread} {op : Op} {here : Local} (stands : state.calls.lookup thread = some (op, here)) (lock : Lock) :
    state.owner lock = some thread ↔ lock ∈ locking.holds here := by
  rw [owned]
  constructor
  · rintro ⟨_, _, found, member⟩
    rw [stands] at found
    cases found
    exact member
  · exact fun member => ⟨op, here, stands, member⟩

omit [DecidableEq Lock] in
theorem State.Owned.of_thread (owned : before.Owned locking) {thread : Thread} {place : Option (Op × Local)}
    (moves : ∀ other, after.calls.lookup other = if other = thread then place else before.calls.lookup other)
    (mine : ∀ lock, after.owner lock = some thread ↔ ∃ op here, place = some (op, here) ∧ lock ∈ locking.holds here)
    (others : ∀ lock other, other ≠ thread → (after.owner lock = some other ↔ before.owner lock = some other)) :
    after.Owned locking := by
  -- Locks change hands with the place of the one thread that moves.
  intro lock other
  by_cases same : other = thread
  · subst same
    rw [mine, moves, if_pos rfl]
  · rw [others lock other same, moves, if_neg same]
    exact owned lock other

theorem State.Owned.moved (owned : before.Owned locking) (moved : locking.Moved before label after events) :
    after.Owned locking := by
  cases moved with
  | @called thread op idle =>
      refine owned.of_thread (fun other => Table.lookup_insert _ _ _ _) (fun lock => ?_) fun _ _ _ => Iff.rfl
      simp only [Option.some.injEq, Prod.mk.injEq]
      rw [owned]
      constructor
      · rintro ⟨_, _, found, _⟩
        rw [idle] at found
        cases found
      · rintro ⟨_, _, ⟨rfl, rfl⟩, member⟩
        rw [(locking.enters op).1] at member
        cases member
  | @acquired thread op here next lock stands found free =>
      refine owned.of_thread (fun other => Table.lookup_insert _ _ _ _) (fun other => ?_) fun other thief distinct => ?_
      · simp only [Option.some.injEq, Prod.mk.injEq, Function.update_apply]
        have held := (locking.acquires found).2.1
        split
        · rename_i same
          subst same
          exact iff_of_true rfl ⟨op, next, ⟨rfl, rfl⟩, held ▸ List.mem_cons_self⟩
        · rename_i distinct
          rw [owned.of_lookup stands]
          constructor
          · exact fun member => ⟨op, next, ⟨rfl, rfl⟩, held ▸ List.mem_cons_of_mem _ member⟩
          · rintro ⟨_, _, ⟨rfl, rfl⟩, member⟩
            rw [held, List.mem_cons] at member
            exact member.resolve_left distinct
      · simp only [Function.update_apply]
        split
        · rename_i same
          subst same
          rw [free]
          exact iff_of_false (fun took => distinct (Option.some.inj took).symm) nofun
        · rfl
  | @released thread op here next lock stands found =>
      obtain ⟨_, _, held, _⟩ := locking.releases found
      have ascending := locking.ascending here
      rw [held, List.pairwise_cons] at ascending
      have mine := (owned.of_lookup stands lock).mpr (held ▸ List.mem_cons_self)
      refine owned.of_thread (fun other => Table.lookup_insert _ _ _ _) (fun other => ?_) fun other keeper distinct => ?_
      · simp only [Option.some.injEq, Prod.mk.injEq, Function.update_apply]
        split
        · rename_i same
          subst same
          -- The released lock is not held a second time: the ranks ascend.
          refine iff_of_false nofun ?_
          rintro ⟨_, _, ⟨rfl, rfl⟩, member⟩
          exact lt_irrefl _ (ascending.1 _ member)
        · rename_i distinct
          rw [owned.of_lookup stands, held, List.mem_cons, or_iff_right distinct]
          constructor
          · exact fun member => ⟨op, next, ⟨rfl, rfl⟩, member⟩
          · rintro ⟨_, _, ⟨rfl, rfl⟩, member⟩
            exact member
      · simp only [Function.update_apply]
        split
        · rename_i same
          subst same
          rw [mine]
          exact iff_of_false nofun fun kept => distinct (Option.some.inj kept).symm
        · rfl
  | @worked thread op here effect stands found =>
      refine owned.of_thread (fun other => Table.lookup_insert _ _ _ _) (fun lock => ?_) fun _ _ _ => Iff.rfl
      rw [owned.of_lookup stands, ← ((locking.works found).2.2.2 before.data).2.1]
      constructor
      · exact fun member => ⟨op, _, rfl, member⟩
      · rintro ⟨_, _, same, member⟩
        cases same
        exact member
  | @ended thread op here stands found =>
      refine owned.of_thread (fun other => Table.lookup_erase _ _ _) (fun lock => ?_) fun _ _ _ => Iff.rfl
      rw [owned.of_lookup stands, (locking.ends found).2]
      exact iff_of_false List.not_mem_nil nofun

/-! No circle of waiting calls: the lock that one waits for stands above all that it holds. -/

/-- The first thread asks for a lock that the second one has. -/
def Waits (locking : Locking Lock D Op Local) (state : State Thread Lock D Op Local) (thread other : Thread) : Prop :=
  ∃ op here lock next, state.calls.lookup thread = some (op, here) ∧ locking.act here = .acquires lock next ∧
    state.owner lock = some other

/-- From every call one comes, along the threads that wait for one another, to one that can go on. -/
theorem State.Owned.exists_goes {state : State Thread Lock D Op Local} (owned : state.Owned locking) {thread : Thread}
    {op : Op} {here : Local} (stands : state.calls.lookup thread = some (op, here)) :
    ∃ other, Relation.ReflTransGen (Waits locking state) thread other ∧
      (locking.step state (.goes other)).isSome := by
  -- The induction is on the number of ranks above that of the lock asked for.
  suffices ascent : ∀ above thread op here, state.calls.lookup thread = some (op, here) →
      (∀ lock next, locking.act here = .acquires lock next → locking.depth ≤ locking.rank lock + above) →
      ∃ other, Relation.ReflTransGen (Waits locking state) thread other ∧
        (locking.step state (.goes other)).isSome from
    ascent locking.depth thread op here stands fun _ _ _ => Nat.le_add_left _ _
  intro above
  induction above with
  | zero =>
      intro thread op here stands high
      refine ⟨thread, .refl, ?_⟩
      simp only [step, stands]
      cases found : locking.act here with
      | acquires lock next => exact absurd (high lock next found) (Nat.not_le.mpr (locking.bounded lock))
      | releases | works | ends => rfl
  | succ above ih =>
      intro thread op here stands high
      by_cases free : (locking.step state (.goes thread)).isSome
      · exact ⟨thread, .refl, free⟩
      · simp only [step, stands] at free
        cases found : locking.act here with
        | releases | works | ends => simp [found] at free
        | acquires lock next =>
            simp only [found] at free
            cases owns : state.owner lock with
            | none => simp [owns] at free
            | some other =>
                obtain ⟨op', there, stands', member⟩ := (owned lock other).mp owns
                obtain ⟨last, waiting, goes⟩ := ih other op' there stands' fun lock' next' found' => by
                  have above := high lock next found
                  have higher := rank_lt_of_acquires found' member
                  omega
                exact ⟨last, .head ⟨op, here, lock, next, stands, found, owns⟩ waiting, goes⟩

def places (calls : Table Thread (Op × Local)) : List Local := calls.entries.map fun entry => entry.2.2

theorem places_insert (calls : Table Thread (Op × Local)) (thread : Thread) (op : Op) (here : Local) :
    places (calls.insert thread (op, here)) = here :: places (calls.erase thread) := rfl

theorem places_perm_of_lookup {calls : Table Thread (Op × Local)} {thread : Thread} {op : Op} {here : Local}
    (stands : calls.lookup thread = some (op, here)) :
    (places calls).Perm (here :: places (calls.erase thread)) :=
  (Table.entries_perm_of_lookup stands).map _

/-- A step that is no call: some thread goes on. -/
def Goes (locking : Locking Lock D Op Local) (after before : State Thread Lock D Op Local) : Prop :=
  ∃ thread events, locking.step before (.goes thread) = some (after, events)

/-- Without new calls the calls that are under way come to an end, whatever the order of their steps. -/
theorem goes_wellFounded :
    WellFounded fun after before : State Thread Lock D Op Local => Goes locking after before := by
  have ordered := (locking.founded.cutExpand).onFun (f := fun state : State Thread Lock D Op Local =>
    (places state.calls : Multiset Local))
  refine Subrelation.wf ?_ ordered
  rintro after before ⟨thread, events, stepped⟩
  have moved := step_moved stepped
  generalize went : Label.goes thread = label at moved
  -- One place is replaced by a lesser one, or by none.
  have replaced {op : Op} {here next : Local} (stands : before.calls.lookup thread = some (op, here))
      (less : locking.less next here) : Relation.CutExpand locking.less
        (places (before.calls.insert thread (op, next)) : Multiset Local) (places before.calls : Multiset Local) := by
    rw [places_insert, Multiset.coe_eq_coe.mpr (places_perm_of_lookup stands), ← Multiset.cons_coe,
      ← Multiset.cons_coe, ← Multiset.singleton_add, ← Multiset.singleton_add, Relation.cutExpand_add_right]
    exact Relation.cutExpand_singleton_singleton less
  cases moved with
  | called => cases went
  | acquired stands found =>
      cases went
      exact replaced stands (locking.acquires found).2.2
  | released stands found =>
      cases went
      exact replaced stands (locking.releases found).2.2.2
  | worked stands found =>
      cases went
      exact replaced stands ((locking.works found).2.2.2 before.data).2.2
  | ended stands found =>
      cases went
      show Relation.CutExpand locking.less (places (before.calls.erase thread) : Multiset Local)
        (places before.calls : Multiset Local)
      rw [Multiset.coe_eq_coe.mpr (places_perm_of_lookup stands), ← Multiset.cons_coe, ← Multiset.singleton_add]
      exact ⟨0, _, nofun, by rw [add_comm, add_zero]⟩

def working (locking : Locking Lock D Op Local) (calls : Table Thread (Op × Local)) : List (Thread × Op × Local) :=
  (calls.entries.map fun entry => (entry.1, entry.2)).filter fun call => locking.complete call.2.2

omit [DecidableEq Lock] in
theorem working_insert (locking : Locking Lock D Op Local) (calls : Table Thread (Op × Local)) (thread : Thread)
    (op : Op) (here : Local) :
    working locking (calls.insert thread (op, here)) =
      if locking.complete here then (thread, op, here) :: working locking (calls.erase thread)
      else working locking (calls.erase thread) :=
  List.filter_cons

omit [DecidableEq Lock] in
theorem working_perm_of_lookup (locking : Locking Lock D Op Local) {calls : Table Thread (Op × Local)}
    {thread : Thread} {op : Op} {here : Local}
    (stands : calls.lookup thread = some (op, here)) :
    (working locking calls).Perm
      (if locking.complete here then (thread, op, here) :: working locking (calls.erase thread)
      else working locking (calls.erase thread)) := by
  refine (((Table.entries_perm_of_lookup stands).map _).filter _).trans ?_
  rw [List.map_cons, List.filter_cons]
  rfl

omit [DecidableEq Lock] in
theorem working_called {calls : Table Thread (Op × Local)} {thread : Thread} (idle : calls.lookup thread = none)
    (op : Op) : working locking (calls.insert thread (op, locking.enter op)) = working locking calls := by
  rw [working_insert, if_neg (by simp [(locking.enters op).2]), working, Table.entries_erase_of_none idle]
  rfl

omit [DecidableEq Lock] in
theorem lookup_of_mem_working {calls : Table Thread (Op × Local)} {call : Thread × Op × Local}
    (member : call ∈ working locking calls) :
    calls.lookup call.1 = some call.2 ∧ locking.complete call.2.2 = true := by
  simp only [working, List.mem_filter, List.mem_map] at member
  obtain ⟨⟨entry, present, rfl⟩, complete⟩ := member
  exact ⟨AList.mem_lookup_iff.mpr present, complete⟩

/-- The data once the operations that have all their locks have been worked through. -/
def State.finished (locking : Locking Lock D Op Local) (state : State Thread Lock D Op Local) : ∀ lock, D lock :=
  (working locking state.calls).foldl (fun data call => locking.outcome data call.2.2) state.data

omit [DecidableEq Lock] in
theorem State.Owned.comm {state : State Thread Lock D Op Local} (owned : state.Owned locking)
    {first second : Thread × Op × Local} (one : first ∈ working locking state.calls)
    (two : second ∈ working locking state.calls) (data : ∀ lock, D lock) :
    locking.outcome (locking.outcome data first.2.2) second.2.2 =
      locking.outcome (locking.outcome data second.2.2) first.2.2 := by
  -- Different calls hold different locks, so what is left of them can be worked through in any order.
  obtain ⟨stands, complete⟩ := lookup_of_mem_working one
  obtain ⟨stands', complete'⟩ := lookup_of_mem_working two
  by_cases same : first.1 = second.1
  · rw [same, stands', Option.some.injEq] at stands
    rw [stands]
  · refine (confined_outcome complete').comm (confined_outcome complete) (fun lock held also => same ?_) data
    have mine := (owned.of_lookup stands lock).mpr also
    rw [(owned.of_lookup stands' lock).mpr held] at mine
    exact (Option.some.inj mine).symm

omit [DecidableEq Lock] in
theorem State.Owned.finished_eq {state : State Thread Lock D Op Local} (owned : state.Owned locking) {thread : Thread}
    {op : Op} {here : Local} (stands : state.calls.lookup thread = some (op, here)) :
    state.finished locking = (working locking (state.calls.erase thread)).foldl
      (fun data call => locking.outcome data call.2.2)
      (if locking.complete here then locking.outcome state.data here else state.data) := by
  -- The call that moves can be worked through first.
  rw [finished, (working_perm_of_lookup locking stands).foldl_eq' fun first one second two data => owned.comm one two data]
  split
  · rfl
  · rfl

/-- Until it has its last lock, a call has done nothing. -/
def State.Untouched (locking : Locking Lock D Op Local) (state : State Thread Lock D Op Local) : Prop :=
  ∀ thread op here, state.calls.lookup thread = some (op, here) → locking.complete here = false →
    ∀ data, locking.outcome data here = locking.perform data op

/-- The operations that have had all their locks make up the data, those that are not at their end included,
and they are those that have returned or are still at work. -/
structure Serial (locking : Locking Lock D Op Local) (start : ∀ lock, D lock) (past : List (Event Thread Op))
    (state : State Thread Lock D Op Local) : Prop where
  owned : state.Owned locking
  untouched : state.Untouched locking
  finished : state.finished locking = locking.performed start (order past)
  accounted : (order past).Perm (returns past ++ (working locking state.calls).map fun call => (call.1, call.2.1))

omit [DecidableEq Lock] in
theorem State.Untouched.of_thread (untouched : before.Untouched locking) {thread : Thread} {place : Option (Op × Local)}
    (moves : ∀ other, after.calls.lookup other = if other = thread then place else before.calls.lookup other)
    (mine : ∀ op here, place = some (op, here) → locking.complete here = false →
      ∀ data, locking.outcome data here = locking.perform data op) : after.Untouched locking := by
  intro other op here stands
  rw [moves] at stands
  split at stands
  · exact mine op here stands
  · exact untouched other op here stands

theorem State.Untouched.moved (untouched : before.Untouched locking)
    (moved : locking.Moved before label after events) : after.Untouched locking := by
  cases moved with
  | called idle =>
      refine untouched.of_thread (fun other => Table.lookup_insert _ _ _ _) fun op here same _ data => ?_
      cases same
      rfl
  | acquired stands found free =>
      refine untouched.of_thread (fun other => Table.lookup_insert _ _ _ _) fun op here same _ data => ?_
      cases same
      rw [← outcome_acquires found]
      exact untouched _ _ _ stands (locking.acquires found).1 data
  | released stands found =>
      refine untouched.of_thread (fun other => Table.lookup_insert _ _ _ _) fun op here same incomplete data => ?_
      cases same
      rw [(locking.releases found).2.1] at incomplete
      cases incomplete
  | worked stands found =>
      refine untouched.of_thread (fun other => Table.lookup_insert _ _ _ _) fun op here same incomplete data => ?_
      cases same
      rw [((locking.works found).2.2.2 _).1] at incomplete
      cases incomplete
  | ended stands found =>
      exact untouched.of_thread (fun other => Table.lookup_erase _ _ _) nofun

theorem Serial.finished_moved {start : ∀ lock, D lock} {past : List (Event Thread Op)}
    (serial : Serial locking start past before) (moved : locking.Moved before label after events) :
    after.finished locking = locking.performed start (order (past ++ events)) := by
  have owned := serial.owned.moved moved
  rw [order_append, performed_append, ← serial.finished]
  cases moved with
  | @called thread op idle =>
      rw [State.finished, working_called idle]
      rfl
  | @acquired thread op here next lock stands found free =>
      rw [serial.owned.finished_eq stands, if_neg (by simp [(locking.acquires found).1]), State.finished, working_insert]
      split
      · rename_i complete
        -- The operation is added behind the others, and could as well be worked through first.
        have perm : ((thread, op, next) :: working locking (before.calls.erase thread)).Perm
            (working locking (before.calls.erase thread) ++ [(thread, op, next)]) :=
          (List.perm_append_singleton _ _).symm
        have entering := serial.untouched thread op here stands (locking.acquires found).1
        rw [perm.foldl_eq' fun first one second two data => ?_, List.foldl_append]
        · exact (outcome_acquires found _).symm.trans (entering _)
        · have all := working_insert locking before.calls thread op next
          rw [if_pos complete] at all
          exact owned.comm (all ▸ one) (all ▸ two) data
      · rfl
  | @released thread op here next lock stands found =>
      obtain ⟨complete, after, _⟩ := locking.releases found
      rw [serial.owned.finished_eq stands, if_pos complete, outcome_releases found, State.finished, working_insert,
        if_pos after]
      rfl
  | @worked thread op here effect stands found =>
      obtain ⟨complete, _, _, kept⟩ := locking.works found
      rw [serial.owned.finished_eq stands, if_pos complete, outcome_works found, State.finished, working_insert,
        if_pos (kept before.data).1]
      rfl
  | @ended thread op here stands found =>
      rw [serial.owned.finished_eq stands, if_pos (locking.ends found).1, outcome_ends found]
      rfl

theorem Serial.accounted_moved {start : ∀ lock, D lock} {past : List (Event Thread Op)}
    (serial : Serial locking start past before) (moved : locking.Moved before label after events) :
    (order (past ++ events)).Perm
      (returns (past ++ events) ++ (working locking after.calls).map fun call => (call.1, call.2.1)) := by
  have accounted := serial.accounted
  rw [order_append, returns_append]
  cases moved with
  | @called thread op idle =>
      rw [working_called idle]
      simpa [order, returns] using accounted
  | @acquired thread op here next lock stands found free =>
      have others := working_perm_of_lookup locking stands
      rw [if_neg (by simp [(locking.acquires found).1])] at others
      have before := accounted.trans ((others.map _).append_left _)
      rw [working_insert]
      split
      · refine (before.append_right _).trans ?_
        simp only [order, returns, List.filterMap_cons, List.filterMap_nil, List.append_nil, List.append_assoc,
          List.map_cons]
        exact (List.perm_append_singleton _ _).append_left _
      · simpa [order, returns] using before
  | @released thread op here next lock stands found =>
      obtain ⟨complete, after, _⟩ := locking.releases found
      have others := working_perm_of_lookup locking stands
      rw [if_pos complete] at others
      rw [working_insert, if_pos after]
      simpa [order, returns] using accounted.trans ((others.map _).append_left _)
  | @worked thread op here effect stands found =>
      obtain ⟨complete, _, _, kept⟩ := locking.works found
      have others := working_perm_of_lookup locking stands
      rw [if_pos complete] at others
      rw [working_insert, if_pos (kept before.data).1]
      simpa [order, returns] using accounted.trans ((others.map _).append_left _)
  | @ended thread op here stands found =>
      have others := working_perm_of_lookup locking stands
      rw [if_pos (locking.ends found).1] at others
      simpa [order, returns] using accounted.trans ((others.map _).append_left _)

theorem Serial.moved {start : ∀ lock, D lock} {past : List (Event Thread Op)} (serial : Serial locking start past before)
    (moved : locking.Moved before label after events) : Serial locking start (past ++ events) after :=
  ⟨serial.owned.moved moved, serial.untouched.moved moved, serial.finished_moved moved, serial.accounted_moved moved⟩

variable {start : ∀ lock, D lock} {final : State Thread Lock D Op Local}
  {steps : List (Taken (State Thread Lock D Op Local) (Label Thread Op) (Event Thread Op))}

omit [DecidableEq Lock] in
theorem serial_initial (start : ∀ lock, D lock) :
    Serial locking start [] (initial start : State Thread Lock D Op Local) where
  owned lock thread := iff_of_false nofun (by rintro ⟨_, _, stands, _⟩; cases stands)
  untouched _ _ _ stands := by cases stands
  finished := rfl
  accounted := .nil

/-- However the steps of the calls are mixed, they come to the operations made one at a time, each at the
moment it has its last lock. -/
theorem run_serial (run : Run locking.step (initial start) steps final) :
    Serial locking start (trace steps) final :=
  run.history (fun _ => True) (Serial locking start) (serial_initial start)
    (fun _ _ _ _ _ serial _ stepped => serial.moved (step_moved stepped)) fun _ _ => trivial

theorem run_performed (run : Run locking.step (initial start) steps final) (idle : final.calls = ∅) :
    final.data = locking.performed start (order (trace steps)) ∧
      (order (trace steps)).Perm (returns (trace steps)) := by
  have serial := run_serial run
  have accounted := serial.accounted
  rw [idle] at accounted
  rw [← serial.finished, State.finished, idle]
  exact ⟨rfl, accounted.trans (List.append_nil _ ▸ .refl _)⟩

/-- A call that is under way can go on, or waits, directly or not, for one that can; and those under way
come to an end when no others are made. -/
theorem run_returns (run : Run locking.step (initial start) steps final) :
    (∀ thread ∈ final.calls, ∃ other, Relation.ReflTransGen (Waits locking final) thread other ∧
        (locking.step final (.goes other)).isSome) ∧
      Acc (Goes locking) final := by
  refine ⟨fun thread member => ?_, goes_wellFounded.apply final⟩
  obtain ⟨⟨op, here⟩, stands⟩ := Table.exists_lookup member
  exact (run_serial run).owned.exists_goes stands

end Step

end Locking

end Library
