import ZmqPlayground.Common.Restart
import ZmqPlayground.Common.Senders
import ZmqPlayground.Common.WatchSet

/-! Clients that are removed while the server thread registers them or waits for them.

A client is entered into the table under the mutex and into the watch set without it, and
the watch set is copied for `Select` without it too. A client that is removed takes
its descriptor out of the watch set as it is then.
-/

set_option autoImplicit false

namespace ZmqPlayground

open Library
open Library.Runs

namespace TcpServer

/-- The copy of the watch set with which the thread is about to call `Select`. -/
def Pc.selecting : Pc → Option (Finset SOCKET)
  | .select _ fds => some fds
  | _ => none

/-- The descriptor is no client's, and `Accept` has not just returned it. -/
structure Forgotten (fd : SOCKET) (server : TcpServer) (arriving : Option SOCKET) : Prop where
  absent : fd ∉ server.clients
  departed : arriving ≠ some fd

def Watches (fd : SOCKET) (server : TcpServer) (unwatched : Option SOCKET) : Prop :=
  fd ∈ server.fds ∨ unwatched = some fd

section Operations
variable {server : TcpServer} {arriving unwatched : Option SOCKET} {fd : SOCKET}

theorem Forgotten.deleteClient (forgotten : Forgotten fd server arriving) (table : Registered server arriving)
    (handle : ClientHandle) : Forgotten fd (server.deleteClient handle).1 arriving ∧
      (Watches fd (server.deleteClient handle).1 unwatched ↔ Watches fd server unwatched) := by
  by_cases member : handle ∈ server.clients
  · have other : fd ≠ handle := by
      rintro rfl
      exact forgotten.absent member
    rw [table.deleteClient_eq member]
    constructor
    · exact ⟨fun still => forgotten.absent (AList.mem_erase.mp still).2, forgotten.departed⟩
    · simp [Watches, other]
  · rw [deleteClient_of_not_mem member]
    exact ⟨forgotten, Iff.rfl⟩

theorem Registered.forgets (table : Registered server arriving) {handle : ClientHandle}
    (member : handle ∈ server.clients) : Forgotten handle (server.deleteClient handle).1 arriving ∧
      (Watches handle (server.deleteClient handle).1 unwatched ↔ unwatched = some handle) := by
  have departed : arriving ≠ some handle := fun arrives => (table.arrives arrives).1 member
  rw [table.deleteClient_eq member]
  constructor
  · exact ⟨by simp, departed⟩
  · simp [Watches]

theorem Moved.forgotten {msg : List Byte} {pc : Pc} {label : Label} {after : TcpServer} {task : Task}
    {events : List Event} (moved : Moved server msg pc label after task events)
    (table : Registered server pc.arriving) (forgotten : Forgotten fd server pc.arriving)
    (unaccepted : ∀ ip port, label ≠ .accept fd ip port) :
    Forgotten fd after task.pc.arriving ∧
      (Watches fd after task.pc.unwatched ↔ Watches fd server pc.unwatched) := by
  cases moved with
  | recvFails | recvCloses =>
      apply And.intro _ Iff.rfl
      exact ⟨by simpa [markDisconnected] using forgotten.absent, forgotten.departed⟩
  | deletes => exact forgotten.deleteClient table _
  | @accepts pass clientfd ip port =>
      apply And.intro _ Iff.rfl
      refine ⟨forgotten.absent, ?_⟩
      rintro ⟨rfl⟩
      exact unaccepted ip port rfl
  | @emplaces pass clientfd =>
      have other : fd ≠ clientfd := by
        rintro rfl
        exact forgotten.departed rfl
      constructor
      · rw [addClient, Table.emplace_of_not_mem (table.arrives rfl).1]
        refine ⟨fun member => ?_, (Option.some_ne_none fd).symm⟩
        rcases (AList.mem_insert _).mp member with own | old
        · exact other own
        · exact forgotten.absent old
      · simp [Watches, addClient, Pc.unwatched, other.symm]
  | watches =>
      constructor
      · exact ⟨forgotten.absent, (Option.some_ne_none fd).symm⟩
      · simp [Watches, Pc.unwatched, or_comm, eq_comm]
  | _ => exact ⟨forgotten, Iff.rfl⟩

/-- What `Select` is called with is the watch set, copied at the top of the loop. -/
theorem Moved.selecting {msg : List Byte} {pc : Pc} {label : Label} {after : TcpServer} {task : Task}
    {events : List Event} (moved : Moved server msg pc label after task events) {fds : Finset SOCKET}
    (copied : task.pc.selecting = some fds) : fds = after.fds ∧ task.pc.unwatched = none := by
  cases moved with
  | selects => exact ⟨(Option.some.inj copied).symm, rfl⟩
  | _ => cases copied

end Operations

end TcpServer

namespace System

open TcpServer

def unwatched (system : System) : Option SOCKET := system.task.bind (·.pc.unwatched)

def selecting (system : System) : Option (Finset SOCKET) := system.task.bind (·.pc.selecting)

def removed (taken : Taken System Label Event) : Option ClientHandle :=
  match taken.label with
  | .call _ (.deleteClient handle) => if taken.events = [.returned (.deleted true)] then some handle else none
  | .serverTask => (taken.before.task.bind (·.pc.deleting)).filter (· ∈ taken.before.server.clients)
  | _ => none

def given (taken : Taken System Label Event) : Option (Finset SOCKET) :=
  match taken.label with
  | .select _ _ => taken.before.selecting
  | _ => none

def Accepts (fd : SOCKET) (taken : Taken System Label Event) : Prop :=
  match taken.label with
  | .accept clientfd _ _ => clientfd = fd
  | _ => False

instance (fd : SOCKET) (taken : Taken System Label Event) : Decidable (Accepts fd taken) :=
  match taken with
  | ⟨_, .accept clientfd _ _, _⟩ => inferInstanceAs (Decidable (clientfd = fd))
  | ⟨_, .serverTask, _⟩ | ⟨_, .select _ _, _⟩ | ⟨_, .recv _ _, _⟩ | ⟨_, .returns, _⟩
  | ⟨_, .call _ _, _⟩ | ⟨_, .start _ _, _⟩ | ⟨_, .stop, _⟩ | ⟨_, .finish, _⟩ | ⟨_, .opens _, _⟩
  | ⟨_, .closes _, _⟩ => isFalse id

/-- The client is removed, and `Select` is called with `fds` later in the same task, before its descriptor is
accepted again. -/
def SelectsAfter (handle : ClientHandle) (fds : Finset SOCKET) (steps : List (Taken System Label Event))
    (removal : Taken System Label Event) : Prop :=
  ∃ first middle selection rest, steps = first ++ removal :: (middle ++ selection :: rest) ∧
    removed removal = some handle ∧ given selection = some fds ∧
    ∀ taken ∈ middle, ¬ Starts taken ∧ ¬ Accepts handle taken

/-- The thread has entered the client into the table and not into the watch set, or it has copied the watch
set with the client and not called `Select`. -/
def Unsettled (handle : ClientHandle) (system : System) : Prop :=
  system.unwatched = some handle ∨ ∃ fds ∈ system.selecting, handle ∈ fds

instance (handle : ClientHandle) (system : System) : Decidable (system.Unsettled handle) :=
  inferInstanceAs (Decidable (_ ∨ _))

variable {before after : System} {label : Label} {events : List Event} {fd : SOCKET}

theorem step_forgotten (table : Registered before.server before.arriving)
    (forgotten : Forgotten fd before.server before.arriving) (alive : after.terminated = false)
    (unstarted : ¬ Starts ⟨before, label, events⟩) (unaccepted : ¬ Accepts fd ⟨before, label, events⟩)
    (stepped : step before label = some (after, events)) :
    Forgotten fd after.server after.arriving ∧
      (Watches fd after.server after.unwatched ↔ Watches fd before.server before.unwatched) := by
  cases step_changed stepped with
  | @moves task _ _ _ _ running moved =>
      simp only [arriving, unwatched, running, Option.bind_some] at table forgotten ⊢
      apply moved.forgotten table forgotten
      rintro ip port rfl
      exact unaccepted rfl
  | @calls caller call =>
      cases call with
      | deleteClient handle => exact forgotten.deleteClient table handle
      | sendBcast | sendClientMessage | getClientInfo => exact ⟨forgotten, Iff.rfl⟩
  | starts _ _ success => exact absurd (by simp [Starts, Event.succeeds, success]) unstarted
  | terminates => cases alive
  | startFails | stops | opens | closes => exact ⟨⟨forgotten.absent, forgotten.departed⟩, Iff.rfl⟩
  | finishes _ joined =>
      have silent : before.unwatched = none := bind_of_joined joined rfl
      constructor
      · exact ⟨by simp [closeSockets], (Option.some_ne_none fd).symm⟩
      · rw [silent]
        exact Iff.rfl

theorem step_selecting (stepped : step before label = some (after, events)) {fds : Finset SOCKET}
    (copied : after.selecting = some fds) :
    before.selecting = some fds ∨ fds = after.server.fds ∧ after.unwatched = none := by
  cases step_changed stepped with
  | moves running moved =>
      right
      simp only [selecting, unwatched, Option.bind_some] at copied ⊢
      exact moved.selecting copied
  | starts | finishes => cases copied
  | calls | terminates | startFails | stops | opens | closes => exact .inl copied

theorem step_still_selecting (stepped : step before label = some (after, events)) {fds : Finset SOCKET}
    (copied : before.selecting = some fds) (uncalled : ∀ selectRet readSet, label ≠ .select selectRet readSet) :
    after.selecting = some fds := by
  -- The thread does nothing before the call.
  cases step_changed stepped with
  | @moves task _ _ _ _ running moved =>
      obtain ⟨pc, msg⟩ := task
      simp only [selecting, running, Option.bind_some] at copied
      cases moved with
      | retries | reports => exact absurd rfl (uncalled _ _)
      | _ => cases copied
  | starts _ _ _ idle => simp [selecting, idle] at copied
  | finishes _ joined =>
      have silent : before.selecting = none := bind_of_joined joined rfl
      rw [silent] at copied
      cases copied
  | calls | terminates | startFails | stops | opens | closes => exact copied

/-- A forgotten descriptor is in the watch set, and in the set for the next `Select`, as is said. -/
structure Agrees (fd : SOCKET) (watched : Prop) (system : System) : Prop
    extends Forgotten fd system.server system.arriving where
  watches : Watches fd system.server system.unwatched ↔ watched
  selects : ∀ {fds}, system.selecting = some fds → (fd ∈ fds ↔ watched)

theorem step_agrees {watched : Prop} (table : Registered before.server before.arriving)
    (agrees : Agrees fd watched before) (alive : after.terminated = false)
    (unstarted : ¬ Starts ⟨before, label, events⟩) (unaccepted : ¬ Accepts fd ⟨before, label, events⟩)
    (stepped : step before label = some (after, events)) : Agrees fd watched after := by
  obtain ⟨forgotten, same⟩ :=
    step_forgotten table agrees.toForgotten alive unstarted unaccepted stepped
  have watches := same.trans agrees.watches
  refine ⟨forgotten, watches, fun {fds} copied => ?_⟩
  rcases step_selecting stepped copied with earlier | ⟨rfl, registered⟩
  · exact agrees.selects earlier
  · rw [← watches, Watches, registered]
    simp

theorem run_agrees {descriptors : List SOCKET} {past steps : List (Taken System Label Event)}
    {middle final : System} {watched : Prop} (front : Run step (boot descriptors) past middle)
    (agrees : Agrees fd watched middle) (run : Run step middle steps final) (alive : final.terminated = false)
    (apart : ∀ taken ∈ steps, ¬ Starts taken ∧ ¬ Accepts fd taken) : Agrees fd watched final := by
  have kept := (run_kept front).1
  refine (run.invariant (fun taken => ¬ Starts taken ∧ ¬ Accepts fd taken)
    (fun system => (∃ past, Kept past system) ∧ (system.terminated = false → Agrees fd watched system))
    ⟨⟨_, kept⟩, fun _ => agrees⟩ ?_ apart).2 alive
  intro before label after events ⟨⟨past, kept⟩, agrees⟩ apart stepped
  refine ⟨⟨_, (step_kept kept stepped).1⟩, fun alive => ?_⟩
  exact step_agrees kept.table (agrees (step_alive stepped)) alive apart.1 apart.2 stepped

theorem removed_forgotten (table : Registered before.server before.arriving) {handle : ClientHandle}
    (gone : removed ⟨before, label, events⟩ = some handle)
    (stepped : step before label = some (after, events)) :
    Forgotten handle after.server after.arriving ∧
      (Watches handle after.server after.unwatched ↔ before.unwatched = some handle) ∧
      after.selecting = before.selecting := by
  cases step_changed stepped with
  | @moves task _ _ _ _ running moved =>
      obtain ⟨pc, msg⟩ := task
      simp only [arriving, running, Option.bind_some] at table
      simp only [removed, arriving, unwatched, selecting, running, Option.bind_some] at gone ⊢
      cases moved with
      | deletes =>
          simp only [Pc.deleting, Option.filter_eq_some_iff, Option.some.injEq, decide_eq_true_eq] at gone
          obtain ⟨rfl, member⟩ := gone
          obtain ⟨forgotten, watches⟩ := table.forgets member
          exact ⟨forgotten, watches, rfl⟩
      | _ => cases gone
  | @calls caller call =>
      cases call with
      | deleteClient other =>
          simp only [removed, Option.ite_none_right_eq_some, Option.some.injEq] at gone
          obtain ⟨returned, rfl⟩ := gone
          have member : other ∈ before.server.clients := by
            by_contra absent
            simp [perform, deleteClient_of_not_mem absent] at returned
          obtain ⟨forgotten, watches⟩ := table.forgets member
          exact ⟨forgotten, watches, rfl⟩
      | sendBcast | sendClientMessage | getClientInfo => cases gone
  | starts | terminates | startFails | stops | finishes | opens | closes => cases gone

theorem selecting_of_given {taken : Taken System Label Event} {fds : Finset SOCKET}
    (called : given taken = some fds) : taken.before.selecting = some fds := by
  unfold given at called
  split at called
  · exact called
  · cases called

theorem run_selects {start final : System} {middle rest : List (Taken System Label Event)}
    {selection : Taken System Label Event} {fds last : Finset SOCKET}
    (run : Run step start (middle ++ selection :: rest) final) (copied : start.selecting = some fds)
    (called : given selection = some last) :
    ∃ earlier next later, middle ++ selection :: rest = earlier ++ next :: later ∧
      given next = some fds ∧ ∀ taken ∈ earlier, taken ∈ middle := by
  induction middle generalizing start with
  | nil =>
      obtain ⟨rfl, -⟩ := run.of_cons
      obtain rfl := Option.some.inj (copied.symm.trans (selecting_of_given called))
      exact ⟨[], selection, rest, rfl, called, by simp⟩
  | cons taken middle ih =>
      obtain ⟨rfl, next, stepped, back⟩ := run.of_cons
      by_cases calls : ∃ selectRet readSet, taken.label = .select selectRet readSet
      · obtain ⟨selectRet, readSet, here⟩ := calls
        refine ⟨[], taken, middle ++ selection :: rest, rfl, ?_, by simp⟩
        rw [given, here]
        exact copied
      · push Not at calls
        obtain ⟨earlier, next, later, same, given, within⟩ := ih back (step_still_selecting stepped copied calls)
        refine ⟨taken :: earlier, next, later, by simp [same], given, ?_⟩
        intro other member
        rcases List.mem_cons.mp member with rfl | member
        · exact List.mem_cons_self
        · exact List.mem_cons_of_mem _ (within other member)

section Removal
variable {descriptors : List SOCKET} {first middle rest : List (Taken System Label Event)} {final : System}
  {removal selection : Taken System Label Event} {handle : ClientHandle} {fds : Finset SOCKET}

theorem run_removed (run : Run step (boot descriptors) (first ++ removal :: rest) final)
    (gone : removed removal = some handle) :
    ∃ after, Run step (boot descriptors) (first ++ [removal]) after ∧ Run step after rest final ∧
      Forgotten handle after.server after.arriving ∧
      (Watches handle after.server after.unwatched ↔ removal.before.unwatched = some handle) ∧
      after.selecting = removal.before.selecting := by
  obtain ⟨_, front, back⟩ := run.cut
  obtain ⟨rfl, after, stepped, back⟩ := back.of_cons
  exact ⟨after, front.snoc stepped, back, removed_forgotten (run_kept front).1.table gone stepped⟩

/-- Every later `Select` is given what the thread had in hand when the client was removed. -/
theorem given_after_removal
    (run : Run step (boot descriptors) (first ++ removal :: (middle ++ selection :: rest)) final)
    (gone : removed removal = some handle) (called : given selection = some fds)
    (apart : ∀ taken ∈ middle, ¬ Starts taken ∧ ¬ Accepts handle taken) {watched : Prop}
    (registers : removal.before.unwatched = some handle ↔ watched)
    (selects : ∀ {copy}, removal.before.selecting = some copy → (handle ∈ copy ↔ watched)) :
    handle ∈ fds ↔ watched := by
  obtain ⟨after, front, back, forgotten, watches, same⟩ := run_removed run gone
  obtain ⟨_, between, later⟩ := back.cut
  obtain ⟨rfl, _, moved, -⟩ := later.of_cons
  have agrees : Agrees handle watched after :=
    ⟨forgotten, watches.trans registers, fun copied => selects (same.symm.trans copied)⟩
  have still := run_agrees front agrees between (step_alive moved) apart
  exact still.selects (selecting_of_given called)

end Removal

theorem not_selecting {system : System} (registers : system.unwatched ≠ none) : system.selecting = none := by
  unfold unwatched at registers
  unfold selecting
  cases found : system.task with
  | none => rfl
  | some task =>
      obtain ⟨pc, msg⟩ := task
      rw [found] at registers
      cases pc with
      | watch => rfl
      | _ => exact absurd rfl registers

/-- Whatever other threads remove, and when: no `Select` that follows a removal in the same task is given the
descriptor before it is accepted again, exactly if none of these removals has come between the
two steps of the client's registration or between the copy of the watch set and its `Select`. -/
theorem removed_unselected_iff {descriptors : List SOCKET} {steps : List (Taken System Label Event)}
    {final : System} (run : Run step (boot descriptors) steps final) :
    (∀ handle fds removal, SelectsAfter handle fds steps removal → handle ∉ fds) ↔
      ∀ handle fds removal, SelectsAfter handle fds steps removal → ¬ removal.before.Unsettled handle := by
  constructor
  · rintro unselected handle fds removal ⟨first, middle, selection, rest, rfl, gone, called, apart⟩ unsettled
    rcases unsettled with registers | ⟨copy, copied, member⟩
    · have idle : removal.before.selecting = none := not_selecting (by simp [registers])
      have selected := given_after_removal run gone called apart (iff_of_true registers trivial) (by simp [idle])
      exact unselected handle fds removal ⟨first, middle, selection, rest, rfl, gone, called, apart⟩
        (selected.mpr trivial)
    · -- The call it has prepared comes first.
      obtain ⟨after, -, back, -, -, same⟩ := run_removed run gone
      obtain ⟨earlier, next, later, split, calls, within⟩ := run_selects back (same.trans copied) called
      apply unselected handle copy removal _ member
      refine ⟨first, earlier, next, later, by rw [split], gone, calls, ?_⟩
      exact fun taken member => apart taken (within taken member)
  · rintro settled handle fds removal ⟨first, middle, selection, rest, rfl, gone, called, apart⟩
    have free := settled handle fds removal ⟨first, middle, selection, rest, rfl, gone, called, apart⟩
    rw [Unsettled, not_or] at free
    have selected := given_after_removal run gone called apart (iff_of_false free.1 id) fun {copy} copied =>
      iff_of_false (fun member => free.2 ⟨copy, copied, member⟩) id
    exact selected.mp

theorem SelectsAfter.of_drop {steps later : List (Taken System Label Event)} {removal : Taken System Label Event}
    {handle : ClientHandle} {fds : Finset SOCKET} {n k : ℕ} (split : steps.drop n = removal :: later)
    (gone : removed removal = some handle) (called : later[k]?.bind given = some fds)
    (apart : ∀ taken ∈ later.take k, ¬ Starts taken ∧ ¬ Accepts handle taken) :
    SelectsAfter handle fds steps removal := by
  obtain ⟨selection, found, called⟩ := Option.bind_eq_some_iff.mp called
  obtain ⟨within, rfl⟩ := List.getElem?_eq_some_iff.mp found
  refine ⟨steps.take n, later.take k, later[k], later.drop (k + 1), ?_, gone, called, apart⟩
  rw [← List.drop_eq_getElem_cons within, List.take_append_drop, ← split, List.take_append_drop]

/-- A client is removed in the next pass after it has been registered. -/
theorem removed_unselected_iff_settled : ∃ steps final, Run step (boot [0, 1, 2]) steps final ∧
    (∃ removal, SelectsAfter 4 {3} steps removal) ∧
      ∀ handle fds removal, SelectsAfter handle fds steps removal → handle ∉ fds := by
  have computed : (exec step (boot [0, 1, 2]) (.start (listening 3) [] :: acceptPass 4 0 ++
      [.call .otherThread (.deleteClient 4), .serverTask, .select 0 ∅])).any (fun (steps, _) =>
        decide (∀ taken ∈ steps, ∀ handle ∈ removed taken, ¬ taken.before.Unsettled handle) &&
          match steps.drop 13 with
          | removal :: later => decide (removed removal = some 4) && decide (later[1]?.bind given = some {3}) &&
              decide (∀ taken ∈ later.take 1, ¬ Starts taken ∧ ¬ Accepts 4 taken)
          | [] => false) = true := by
    decide +kernel
  obtain ⟨steps, final, run, checked⟩ := exists_run_of_exec computed
  simp only [Bool.and_eq_true, decide_eq_true_eq] at checked
  obtain ⟨settled, found⟩ := checked
  refine ⟨steps, final, run, ?_, (removed_unselected_iff run).mpr ?_⟩
  · split at found
    · rename_i removal later split
      simp only [Bool.and_eq_true, decide_eq_true_eq] at found
      exact ⟨removal, .of_drop split found.1.1 found.1.2 found.2⟩
    · cases found
  · rintro handle fds removal ⟨first, middle, selection, rest, rfl, gone, -⟩
    exact settled removal (by simp) handle gone

/-- A client is removed by another thread before it is watched, and is watched thereafter. -/
theorem removed_then_watched : ∃ steps final, Run step (boot [0, 1, 2]) steps final ∧
    ∃ removal, removal.label = .call .otherThread (.deleteClient 4) ∧ SelectsAfter 4 {3, 4} steps removal := by
  have computed : (exec step (boot [0, 1, 2]) (.start (listening 3) [] :: (acceptPass 4 0).take 8 ++
      .call .otherThread (.deleteClient 4) :: (acceptPass 4 0).drop 8 ++ [.serverTask, .select 0 ∅])).any
        (fun (steps, _) => match steps.drop 9 with
          | removal :: later => decide (removal.label = .call .otherThread (.deleteClient 4)) &&
              decide (removed removal = some 4) && decide (later[5]?.bind given = some {3, 4}) &&
              decide (∀ taken ∈ later.take 5, ¬ Starts taken ∧ ¬ Accepts 4 taken)
          | [] => false) = true := by
    decide +kernel
  obtain ⟨steps, final, run, checked⟩ := exists_run_of_exec computed
  dsimp only at checked
  refine ⟨steps, final, run, ?_⟩
  split at checked
  · rename_i removal later split
    simp only [Bool.and_eq_true, decide_eq_true_eq] at checked
    obtain ⟨⟨⟨called, gone⟩, given⟩, apart⟩ := checked
    exact ⟨removal, called, .of_drop split gone given apart⟩
  · cases checked

end System

end ZmqPlayground
