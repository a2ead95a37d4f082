import ZmqPlayground.Common.ClientTable
import ZmqPlayground.Common.TcpClient
import ZmqPlayground.Library.Ledger

/-! The descriptors of a server and of a client over all their starts and finishes.

Whatever is started, accepted, deleted and finished, the calls of `Socket`,
`Accept` and `Close` are entered into a ledger. The one descriptor that `m_sockfd`
remembers is all that `finish` closes of those `Socket` has returned.
-/

set_option autoImplicit false

namespace ZmqPlayground

open Library
open Library.Ledger
open Library.Runs

def remembered (sockfd : SOCKET) : Option SOCKET := if sockfd = invalidSocket then none else some sockfd

@[simp] theorem remembered_eq_none {sockfd : SOCKET} : remembered sockfd = none ↔ sockfd = invalidSocket := by
  simp [remembered]

theorem remembered_eq_some {sockfd fd : SOCKET} :
    remembered sockfd = some fd ↔ sockfd ≠ invalidSocket ∧ sockfd = fd := by
  simp [remembered]

namespace Kernel

def owned (kernel : Kernel) (fd : SOCKET) : Bool :=
  match kernel.object fd with
  | some .listener | some (.connection _) => true
  | some .other | none => false

def Listens (kernel : Kernel) (fd : SOCKET) : Prop := kernel.object fd = some .listener

variable {kernel : Kernel} {fd : SOCKET}

theorem owned_iff : kernel.owned fd = true ↔ kernel.Listens fd ∨ ∃ id, kernel.object fd = some (.connection id) := by
  unfold owned Listens
  split <;> simp_all

theorem not_owned (closed : ¬ kernel.IsOpen fd) : kernel.owned fd = false := by
  simp only [owned, not_open closed]

theorem owned_of_changed {after : Kernel} {other : SOCKET} {object : Option Object} {held : Bool}
    (changed : after.object other = if other = fd then object else kernel.object other)
    (now : after.object other = object → after.owned other = held) :
    after.owned other = if other = fd then held else kernel.owned other := by
  by_cases own : other = fd
  · rw [if_pos own] at changed ⊢
    exact now changed
  · rw [if_neg own] at changed ⊢
    rw [owned, changed, owned]

theorem owned_close (other : SOCKET) :
    (kernel.close fd).owned other = if other = fd then false else kernel.owned other :=
  owned_of_changed (object_close ..) fun same => by rw [owned, same]

theorem owned_accept (other : SOCKET) :
    (kernel.accept fd).owned other = if other = fd then true else kernel.owned other :=
  owned_of_changed (object_accept ..) fun same => by rw [owned, same]

theorem owned_socket (other : SOCKET) :
    (kernel.socket fd).owned other = if other = fd then true else kernel.owned other :=
  owned_of_changed (object_socket ..) fun same => by rw [owned, same]

theorem owned_opens (closed : kernel.object fd = none) (other : SOCKET) :
    (kernel.opens fd .other Object.other_plain).owned other = kernel.owned other := by
  rw [owned_of_changed (object_opens ..) fun same => by rw [owned, same]]
  split
  · rename_i same
    rw [same, owned, closed]
  · rfl

theorem listens_socket (other : SOCKET) : (kernel.socket fd).Listens other ↔ other = fd ∨ kernel.Listens other := by
  unfold Listens
  rw [object_socket]
  by_cases own : other = fd
  · simp [own]
  · simp [own]

theorem listens_of_changed {after : Kernel} {object : Option Object}
    (changed : ∀ other, after.object other = if other = fd then object else kernel.object other)
    (foreign : ¬ kernel.Listens fd) (plain : object ≠ some .listener) (other : SOCKET) :
    after.Listens other ↔ kernel.Listens other := by
  unfold Listens at foreign ⊢
  rw [changed]
  by_cases own : other = fd
  · simp [own, foreign, plain]
  · simp [own]

theorem listens_accept (unused : ¬ kernel.IsOpen fd) (other : SOCKET) :
    (kernel.accept fd).Listens other ↔ kernel.Listens other :=
  listens_of_changed (object_accept kernel fd) (by simp [Listens, not_open unused]) (by simp) other

theorem listens_close (foreign : ¬ kernel.Listens fd) (other : SOCKET) :
    (kernel.close fd).Listens other ↔ kernel.Listens other :=
  listens_of_changed (object_close kernel fd) foreign (by simp) other

theorem listens_opens (closed : kernel.object fd = none) (other : SOCKET) :
    (kernel.opens fd .other Object.other_plain).Listens other ↔ kernel.Listens other :=
  listens_of_changed (object_opens kernel fd · .other Object.other_plain) (by simp [Listens, closed]) (by simp) other

theorem initial_unlistened (descriptors : List SOCKET) (fd : SOCKET) :
    ¬ (initial descriptors).Listens fd := by
  suffices kept : ∀ kernel : Kernel, ¬ kernel.Listens fd → ¬ (descriptors.foldl
      (fun kernel fd => kernel.opens fd .other Object.other_plain) kernel).Listens fd from
    kept _ (by simp [Listens, object])
  induction descriptors with
  | nil => exact fun _ unlistened => unlistened
  | cons other descriptors ih =>
      intro kernel unlistened
      apply ih
      unfold Listens at unlistened ⊢
      rw [object_opens]
      split
      · simp
      · exact unlistened

end Kernel

namespace TcpServer

def deleted (server : TcpServer) (handle : ClientHandle) : List (Entry SOCKET) :=
  ((server.clients.lookup handle).map fun client => released client.sockfd).toList

/-- The descriptors `finish` closes, in their order. -/
def closing (server : TcpServer) : List SOCKET :=
  server.clients.entries.map (·.2.sockfd) ++ (remembered server.sockfd).toList

def Pc.entries (server : TcpServer) : Pc → Label → List (Entry SOCKET)
  | .accept _, .accept clientfd _ _ => if clientfd = -1 then [] else [acquired clientfd]
  | .delete pass, .serverTask => server.deleted pass.fd
  | _, _ => []

def startEntries (calls : StartCalls) : List (Entry SOCKET) :=
  if calls.initResult = 0 ∧ calls.socket ≠ invalidSocket then [acquired calls.socket] else []

theorem start_descriptors (calls : StartCalls) (server : TcpServer) :
    (server.start calls).1.clients = server.clients ∧ (server.start calls).1.stop = server.stop ∧
      (calls.initResult ≠ 0 ∧ (server.start calls).1.sockfd = server.sockfd ∧
          (server.start calls).1.kernel = server.kernel ∨
        calls.initResult = 0 ∧ calls.socket = invalidSocket ∧
          (server.start calls).1.sockfd = invalidSocket ∧ (server.start calls).1.kernel = server.kernel ∨
        calls.initResult = 0 ∧ calls.socket ≠ invalidSocket ∧
          (server.start calls).1.sockfd = calls.socket ∧
          (server.start calls).1.kernel = server.kernel.socket calls.socket) := by
  unfold start
  split_ifs with initFailed socketFailed
  · exact ⟨rfl, rfl, .inl ⟨initFailed, rfl, rfl⟩⟩
  · exact ⟨rfl, rfl, .inr (.inl ⟨not_not.mp initFailed, socketFailed, socketFailed, rfl⟩)⟩
  all_goals exact ⟨rfl, rfl, .inr (.inr ⟨not_not.mp initFailed, socketFailed, rfl, rfl⟩)⟩

variable {server after : TcpServer} {arriving : Option SOCKET} {past : List (Entry SOCKET)}

theorem Registered.not_listens (table : Registered server arriving) {handle : ClientHandle}
    (member : handle ∈ server.clients) : ¬ server.kernel.Listens handle := by
  intro listens
  obtain ⟨-, id, found⟩ := table.connected member
  rw [listens] at found
  cases found

theorem Registered.owned (table : Registered server arriving) {handle : ClientHandle}
    (member : handle ∈ server.clients) : server.kernel.owned handle = true :=
  Kernel.owned_iff.mpr (.inr (table.connected member).2)

theorem Registered.deleted_holding (table : Registered server arriving)
    (holding : Holding server.kernel.owned past) (handle : ClientHandle) :
    Holding (server.deleteClient handle).1.kernel.owned (past ++ server.deleted handle) ∧
      ∀ fd, (server.deleteClient handle).1.kernel.Listens fd ↔ server.kernel.Listens fd := by
  unfold deleted
  by_cases member : handle ∈ server.clients
  · rw [table.deleteClient_eq member]
    obtain ⟨client, found⟩ := Table.exists_lookup member
    rw [found, Option.map_some, Option.toList_some, table.stored found]
    constructor
    · exact holding.release (table.owned member) Kernel.owned_close
    · exact Kernel.listens_close (table.not_listens member)
  · rw [deleteClient_of_not_mem member, AList.lookup_eq_none.mpr member, Option.map_none,
      Option.toList_none, List.append_nil]
    exact ⟨holding, fun _ => Iff.rfl⟩

theorem Moved.holding {msg : List Byte} {pc : Pc} {label : Label} {task : Task} {events : List Event}
    (moved : Moved server msg pc label after task events) (table : Registered server pc.arriving)
    (holding : Holding server.kernel.owned past) :
    Holding after.kernel.owned (past ++ pc.entries server label) ∧
      ∀ fd, after.kernel.Listens fd ↔ server.kernel.Listens fd := by
  cases moved with
  | deletes => exact table.deleted_holding holding _
  | accepts valid unused =>
      rw [Pc.entries, if_neg valid]
      constructor
      · exact holding.acquire (Kernel.not_owned unused) Kernel.owned_accept
      · exact Kernel.listens_accept unused
  | acceptFails =>
      rw [Pc.entries, if_pos rfl, List.append_nil]
      exact ⟨holding, fun _ => Iff.rfl⟩
  | _ =>
      rw [Pc.entries, List.append_nil]
      · exact ⟨holding, fun _ => Iff.rfl⟩
      all_goals simp

def Label.ofThread : Label → Bool
  | .serverTask | .select _ _ | .recv _ _ | .accept _ _ _ | .returns => true
  | .call _ _ | .start _ _ | .stop | .finish | .opens _ | .closes _ => false

theorem Moved.own {msg : List Byte} {pc : Pc} {label : Label} {task : Task} {events : List Event}
    (moved : Moved server msg pc label after task events) : label.ofThread = true := by
  cases moved <;> rfl

@[simp] theorem stop_deleteClient (server : TcpServer) (handle : ClientHandle) :
    (server.deleteClient handle).1.stop = server.stop := by
  rw [deleteClient]
  split <;> rfl

theorem Moved.stop {msg : List Byte} {pc : Pc} {label : Label} {task : Task} {events : List Event}
    (moved : Moved server msg pc label after task events) : after.stop = server.stop := by
  cases moved with
  | deletes => exact stop_deleteClient _ _
  | _ => rfl

theorem Pc.entries_eq_nil {pc : Pc} {label : Label} (outside : label.ofThread = false) :
    pc.entries server label = [] := by
  rw [Pc.entries]
  · rintro _ clientfd ip port _ rfl
    cases outside
  · rintro _ _ rfl
    cases outside

theorem object_foldl_close (kernel : Kernel) (clients : List (Sigma fun _ : ClientHandle => Client))
    (fd : SOCKET) :
    (clients.foldl (fun kernel client => kernel.close client.2.sockfd) kernel).object fd =
      if fd ∈ clients.map (·.2.sockfd) then none else kernel.object fd := by
  induction clients generalizing kernel with
  | nil => simp
  | cons client clients ih =>
      rw [List.foldl_cons, ih, Kernel.object_close, List.map_cons]
      by_cases own : fd = client.2.sockfd
      · simp [own]
      · simp only [List.mem_cons, own, false_or, if_false]

theorem object_closeSockets (server : TcpServer) (fd : SOCKET) :
    server.closeSockets.kernel.object fd =
      if fd ∈ server.closing then none else server.kernel.object fd := by
  unfold closeSockets closing
  by_cases invalid : server.sockfd = invalidSocket
  · simp only [invalid, ne_eq, not_true_eq_false, if_false, object_foldl_close, remembered, if_true,
      Option.toList_none, List.append_nil]
  · simp only [invalid, ne_eq, not_false_eq_true, if_true, Kernel.object_close, object_foldl_close,
      remembered, if_false, Option.toList_some, List.mem_append, List.mem_singleton]
    by_cases own : fd = server.sockfd
    · simp [own]
    · simp only [own, or_false, if_false]

theorem Registered.closing_eq (table : Registered server arriving) :
    server.closing = server.clients.keys ++ (remembered server.sockfd).toList := by
  have stored : server.clients.entries.map (·.2.sockfd) = server.clients.entries.map Sigma.fst := by
    apply List.map_congr_left
    intro client member
    exact table.stored (AList.mem_lookup_iff.mpr member)
  rw [closing, stored]
  rfl

/-- The socket a server remembers is the one it listens on. -/
def Listening (server : TcpServer) : Prop := Owns server.kernel.Listens (remembered server.sockfd)

theorem Registered.closes (table : Registered server none) (listening : server.Listening)
    (holding : Holding server.kernel.owned past) :
    Holding server.closeSockets.kernel.owned (past ++ server.closing.map released) ∧
      (∀ fd, server.closeSockets.kernel.Listens fd ↔
        server.kernel.Listens fd ∧ remembered server.sockfd ≠ some fd) ∧
      Registered server.closeSockets none := by
  have listener : ∀ fd, remembered server.sockfd = some fd → fd ∉ server.clients :=
    fun fd same member => table.not_listens member (listening fd same)
  have closed : ∀ fd, fd ∈ server.closing ↔ fd ∈ server.clients ∨ remembered server.sockfd = some fd := by
    intro fd
    rw [table.closing_eq]
    simp [AList.mem_keys]
  refine ⟨holding.releaseAll ?_ ?_ ?_, ?_, .of_empty rfl ?_⟩
  · rw [table.closing_eq, List.nodup_append']
    refine ⟨server.clients.nodupKeys, by cases remembered server.sockfd <;> simp, ?_⟩
    intro fd member remembers
    exact listener fd (by simpa using remembers) (AList.mem_keys.mp member)
  · intro fd member
    rcases (closed fd).mp member with client | remembers
    · exact table.owned client
    · exact Kernel.owned_iff.mpr (.inl (listening fd remembers))
  · intro fd
    unfold Kernel.owned
    rw [object_closeSockets]
    by_cases member : fd ∈ server.closing
    · rw [if_pos member, if_pos member]
    · rw [if_neg member, if_neg member]
  · intro fd
    unfold Kernel.Listens
    rw [object_closeSockets]
    by_cases member : fd ∈ server.closing
    · rw [if_pos member]
      apply iff_of_false nofun
      rintro ⟨listens, other⟩
      exact table.not_listens (((closed fd).mp member).resolve_right other) listens
    · rw [if_neg member]
      have other := mt (closed fd).mpr member
      push Not at other
      exact (and_iff_left other.2).symm
  · intro fd id found
    rw [object_closeSockets] at found
    split at found
    · cases found
    · rename_i kept
      rcases table.registered found with client | arriving
      · exact kept ((closed fd).mpr (.inl client))
      · cases arriving

/-- After a start, however far it got: the ledger, the socket that is remembered, and whether it is
the only one. -/
theorem Registered.starts (table : Registered server arriving) (listening : server.Listening)
    (holding : Holding server.kernel.owned past) {calls : StartCalls}
    (unused : calls.socket = invalidSocket ∨ ¬ server.kernel.IsOpen calls.socket) :
    Registered (server.start calls).1 arriving ∧ (server.start calls).1.Listening ∧
      Holding (server.start calls).1.kernel.owned (past ++ startEntries calls) ∧
      (Tight (server.start calls).1.kernel.Listens (remembered (server.start calls).1.sockfd) ↔
        Tight server.kernel.Listens (remembered server.sockfd) ∧
          ¬ (calls.initResult = 0 ∧ server.sockfd ≠ invalidSocket)) := by
  unfold Listening startEntries
  obtain ⟨clients, -, ⟨failed, sockfd, kernel⟩ | ⟨init, failed, sockfd, kernel⟩ |
    ⟨init, valid, sockfd, kernel⟩⟩ := start_descriptors calls server
  · rw [sockfd, kernel, if_neg (fun both => failed both.1), List.append_nil]
    refine ⟨table.of_others clients (kernel ▸ .refl _), listening, holding, ?_⟩
    simp [failed]
  · rw [sockfd, kernel, if_neg (fun both => both.2 failed), List.append_nil]
    refine ⟨table.of_others clients (kernel ▸ .refl _), nofun, holding, ?_⟩
    rw [show remembered invalidSocket = none from rfl, listening.tight_forget]
    simp [init]
  · have fresh := unused.resolve_left valid
    rw [sockfd, kernel, if_pos ⟨init, valid⟩]
    refine ⟨table.of_others clients (kernel ▸ .socket (Kernel.not_open fresh)), ?_, ?_, ?_⟩
    · intro fd same
      rw [← (remembered_eq_some.mp same).2]
      exact (Kernel.listens_socket _).mpr (.inl rfl)
    · exact holding.acquire (Kernel.not_owned fresh) Kernel.owned_socket
    · rw [remembered_eq_some.mpr ⟨valid, rfl⟩, listening.tight_replace _ Kernel.listens_socket]
      · simp [init]
      · unfold Kernel.Listens
        rw [Kernel.not_open fresh]
        nofun

end TcpServer

namespace System

open TcpServer

/-- The descriptors a step gets from `Socket` or `Accept`, and those it passes to `Close`. -/
def entries (taken : Taken System Label Event) : List (Entry SOCKET) :=
  match taken.label with
  | .start calls _ => startEntries calls
  | .call _ (.deleteClient handle) => taken.before.server.deleted handle
  | .finish => taken.before.server.closing.map released
  | label => match taken.before.task with
      | some task => task.pc.entries taken.before.server label
      | none => []

def ledger (steps : List (Taken System Label Event)) : List (Entry SOCKET) := steps.flatMap entries

theorem ledger_snoc (steps : List (Taken System Label Event)) (last : Taken System Label Event) :
    ledger (steps ++ [last]) = ledger steps ++ entries last := by
  simp [ledger]

/-- A start that gets as far as `Socket` and overwrites a descriptor that is still open. -/
def Leaks (taken : Taken System Label Event) : Prop :=
  match taken.label with
  | .start calls _ => calls.initResult = 0 ∧ taken.before.server.sockfd ≠ invalidSocket
  | _ => False

instance (taken : Taken System Label Event) : Decidable (Leaks taken) := by
  unfold Leaks
  split <;> infer_instance

def arriving (system : System) : Option SOCKET := system.task.bind (·.pc.arriving)

structure Kept (past : List (Entry SOCKET)) (system : System) : Prop where
  table : Registered system.server system.arriving
  listening : system.server.Listening
  holding : Holding system.server.kernel.owned past

/-- No listening socket is open but the one that is remembered. -/
def Single (system : System) : Prop :=
  Tight system.server.kernel.Listens (remembered system.server.sockfd)

section Step
variable {before after : System} {label : Label} {events : List Event} {past : List (Entry SOCKET)}

theorem step_start {calls : StartCalls} {msg : List Byte}
    (stepped : step before (.start calls msg) = some (after, events)) :
    after.server = (before.server.start calls).1 ∧ after.arriving = before.arriving ∧
      (calls.socket = invalidSocket ∨ ¬ before.server.kernel.IsOpen calls.socket) ∧
      (after.terminated = true ∨ events = [.started (before.server.start calls).2]) := by
  unfold step at stepped
  split at stepped
  · cases stepped
  · simp only at stepped
    split at stepped
    · cases stepped
    · rename_i unused
      rw [not_and_or, not_ne_iff] at unused
      split at stepped
      · split at stepped <;> cases stepped
        · exact ⟨rfl, rfl, unused, .inl rfl⟩
        · rename_i idle
          have none : before.task = none := by simpa using idle
          exact ⟨rfl, by simp [arriving, none, Pc.arriving], unused, .inr rfl⟩
      · cases stepped
        exact ⟨rfl, rfl, unused, .inr rfl⟩

theorem bind_of_joined {A : Type} (joined : ∀ task ∈ before.task, task.pc = .exited) {held : Pc → Option A}
    (exited : held .exited = none) : before.task.bind (fun task => held task.pc) = none := by
  cases found : before.task with
  | none => rfl
  | some task => rw [Option.bind_some, joined task found, exited]

theorem finish_arriving (joined : ∀ task ∈ before.task, task.pc = .exited) : before.arriving = none :=
  bind_of_joined joined rfl

theorem entries_eq_nil (idle : label = .stop ∨ (∃ fd, label = .opens fd) ∨ (∃ fd, label = .closes fd) ∨
      ∃ caller call, label = .call caller call ∧ ∀ handle, call ≠ .deleteClient handle) :
    entries ⟨before, label, events⟩ = [] := by
  have silent : ∀ label : Label, label.ofThread = false →
      (match before.task with
        | some task => task.pc.entries before.server label
        | none => []) = [] := by
    intro label outside
    split
    · exact Pc.entries_eq_nil outside
    · rfl
  rcases idle with rfl | ⟨fd, rfl⟩ | ⟨fd, rfl⟩ | ⟨caller, call, rfl, kept⟩
  · exact silent _ rfl
  · exact silent _ rfl
  · exact silent _ rfl
  · cases call with
    | deleteClient handle => exact absurd rfl (kept handle)
    | sendBcast | sendClientMessage | getClientInfo => exact silent _ rfl

theorem Kept.quietly (kept : Kept past before) (silent : entries ⟨before, label, events⟩ = [])
    (unleaked : ¬ Leaks ⟨before, label, events⟩) {kernel : Kernel}
    (others : before.server.kernel.Others kernel)
    (owned : ∀ fd, kernel.owned fd = before.server.kernel.owned fd)
    (listens : ∀ fd, kernel.Listens fd ↔ before.server.kernel.Listens fd)
    (server : after.server.clients = before.server.clients ∧ after.server.sockfd = before.server.sockfd ∧
      after.server.kernel = kernel) (task : after.task = before.task) :
    Kept (past ++ entries ⟨before, label, events⟩) after ∧
      (Single after ↔ Single before ∧ ¬ Leaks ⟨before, label, events⟩) := by
  obtain ⟨clients, sockfd, rfl⟩ := server
  rw [silent, List.append_nil, and_iff_left unleaked]
  have arriving : after.arriving = before.arriving := by rw [System.arriving, task, System.arriving]
  refine ⟨⟨arriving ▸ kept.table.of_others clients others, ?_, kept.holding.congr owned⟩, ?_⟩
  · intro fd same
    exact (listens fd).mpr (kept.listening fd (sockfd ▸ same))
  · unfold Single Tight
    simp only [listens, sockfd]

theorem Kept.moves (kept : Kept past before) {now : List (Entry SOCKET)}
    (table : Registered after.server after.arriving) (holding : Holding after.server.kernel.owned now)
    (listens : ∀ fd, after.server.kernel.Listens fd ↔ before.server.kernel.Listens fd)
    (sockfd : after.server.sockfd = before.server.sockfd) (unleaked : ¬ Leaks ⟨before, label, events⟩) :
    Kept now after ∧ (Single after ↔ Single before ∧ ¬ Leaks ⟨before, label, events⟩) := by
  refine ⟨⟨table, ?_, holding⟩, ?_⟩
  · intro fd same
    exact (listens fd).mpr (kept.listening fd (sockfd ▸ same))
  · rw [and_iff_left unleaked]
    unfold Single Tight
    simp only [listens, sockfd]

theorem step_kept (kept : Kept past before) (stepped : step before label = some (after, events)) :
    Kept (past ++ entries ⟨before, label, events⟩) after ∧
      (Single after ↔ Single before ∧ ¬ Leaks ⟨before, label, events⟩) := by
  have started : ∀ calls msg, label = .start calls msg →
      Kept (past ++ entries ⟨before, label, events⟩) after ∧
        (Single after ↔ Single before ∧ ¬ Leaks ⟨before, label, events⟩) := by
    rintro calls msg rfl
    obtain ⟨server, arriving, unused, -⟩ := step_start stepped
    obtain ⟨table, listening, holding, single⟩ := kept.table.starts kept.listening kept.holding unused
    unfold Single
    rw [server]
    exact ⟨⟨server ▸ arriving ▸ table, server ▸ listening, server ▸ holding⟩, single⟩
  cases step_changed stepped with
  | starts | terminates | startFails => exact started _ _ rfl
  | @moves task next label server events running moved =>
      have arriving : before.arriving = task.pc.arriving := by simp [System.arriving, running]
      have table := kept.table
      rw [arriving] at table
      obtain ⟨ledger, listens⟩ := moved.holding table kept.holding
      obtain ⟨pc, msg⟩ := task
      have entered : entries ⟨before, label, events⟩ = pc.entries before.server label := by
        cases moved <;> simp only [entries, running]
      have unleaked : ¬ Leaks ⟨before, label, events⟩ := by
        cases moved <;> exact id
      rw [entered]
      exact kept.moves (moved.registered table) ledger listens moved.lasting.1 unleaked
  | @calls caller call =>
      cases call with
      | deleteClient handle =>
          obtain ⟨ledger, listens⟩ := kept.table.deleted_holding kept.holding handle
          exact kept.moves (kept.table.deleteClient handle) ledger listens (sockfd_deleteClient _ handle) id
      | sendBcast | sendClientMessage | getClientInfo =>
          exact kept.quietly (entries_eq_nil (.inr (.inr (.inr ⟨_, _, rfl, nofun⟩)))) id (.refl _)
            (fun _ => rfl) (fun _ => Iff.rfl) ⟨rfl, rfl, rfl⟩ rfl
  | stops =>
      exact kept.quietly (entries_eq_nil (.inl rfl)) id (.refl _) (fun _ => rfl) (fun _ => Iff.rfl)
        ⟨rfl, rfl, rfl⟩ rfl
  | finishes stopped joined =>
      have table := kept.table
      rw [finish_arriving joined] at table
      obtain ⟨ledger, listens, empty⟩ := table.closes kept.listening kept.holding
      exact ⟨⟨empty, nofun, ledger⟩, (tight_release listens).trans (and_iff_left id).symm⟩
  | @opens fd unused =>
      have closed := Kernel.not_open unused
      exact kept.quietly (entries_eq_nil (.inr (.inl ⟨_, rfl⟩))) id (.opens closed) (Kernel.owned_opens closed)
        (Kernel.listens_opens closed) ⟨rfl, rfl, rfl⟩ rfl
  | @closes fd belongs =>
      refine kept.quietly (entries_eq_nil (.inr (.inr (.inl ⟨_, rfl⟩)))) id (.closes belongs) ?_ ?_
        ⟨rfl, rfl, rfl⟩ rfl
      · intro other
        rw [Kernel.owned_close]
        by_cases own : other = fd
        · simp [own, Kernel.owned, belongs]
        · rw [if_neg own]
      · exact Kernel.listens_close (by simp [Kernel.Listens, belongs])

theorem run_kept {descriptors : List SOCKET} {steps : List (Taken System Label Event)} {final : System}
    (run : Run step (boot descriptors) steps final) :
    Kept (ledger steps) final ∧ (Single final ↔ ∀ taken ∈ steps, ¬ Leaks taken) := by
  have unconnected := Kernel.initial_unconnected descriptors
  have unlistened := Kernel.initial_unlistened descriptors
  apply run.exactly (fun past system => Kept (ledger past) system) Single Leaks
  · refine ⟨⟨.of_empty rfl unconnected, nofun, holding_nil.congr fun fd => ?_⟩, ?_⟩
    · rw [← Bool.not_eq_true, Kernel.owned_iff]
      rintro (listens | ⟨id, found⟩)
      · exact unlistened fd listens
      · exact unconnected fd id found
    · exact fun fd listens => absurd listens (unlistened fd)
  · intro past before label after events kept stepped
    rw [ledger_snoc]
    exact step_kept kept stepped

/-- After `finish` nothing is open but the sockets that were overwritten. -/
theorem ledger_settled_iff {descriptors : List SOCKET} {steps : List (Taken System Label Event)}
    (run : Run step (boot descriptors) steps before) (stepped : step before .finish = some (after, events)) :
    (∀ fd, Settled (marks fd (ledger (steps ++ [⟨before, .finish, events⟩])))) ↔
      ∀ taken ∈ steps, ¬ Leaks taken := by
  obtain ⟨kept, single⟩ := run_kept run
  obtain ⟨now, exactly⟩ := step_kept kept stepped
  rw [ledger_snoc, now.holding.settled_iff, ← single,
    show Single before ↔ Single after from (exactly.trans (and_iff_left id)).symm]
  cases step_changed stepped with
  | moves _ moved => cases moved.own
  | finishes =>
      have closed := now.table
      refine (forall_congr' fun fd => ?_).trans tight_none.symm
      rw [← Bool.not_eq_true, Kernel.owned_iff, not_or]
      apply and_iff_left
      rintro ⟨id, found⟩
      rcases closed.registered found with member | arriving
      · simp [closeSockets] at member
      · cases arriving

end Step

end System

namespace ClientSystem

open TcpClient

def entries (taken : Taken ClientSystem Label Event) : List (Entry SOCKET) :=
  match taken.label with
  | .connectTo _ calls =>
      if calls.initResult = 0 ∧ calls.socket ≠ invalidSocket then [acquired calls.socket] else []
  | .finish => (remembered taken.before.client.sockfd).toList.map released
  | _ => []

def ledger (steps : List (Taken ClientSystem Label Event)) : List (Entry SOCKET) := steps.flatMap entries

theorem ledger_snoc (steps : List (Taken ClientSystem Label Event)) (last : Taken ClientSystem Label Event) :
    ledger (steps ++ [last]) = ledger steps ++ entries last := by
  simp [ledger]

/-- A call of `connectTo` while the last socket is open, which the call forgets at once. -/
def Leaks (taken : Taken ClientSystem Label Event) : Prop :=
  match taken.label with
  | .connectTo _ _ => taken.before.client.sockfd ≠ invalidSocket
  | _ => False

instance (taken : Taken ClientSystem Label Event) : Decidable (Leaks taken) := by
  unfold Leaks
  split <;> infer_instance

structure Kept (past : List (Entry SOCKET)) (client : TcpClient) : Prop where
  owns : Owns (· ∈ client.opened) (remembered client.sockfd)
  holding : Holding (fun fd => decide (fd ∈ client.opened)) past

def Single (client : TcpClient) : Prop := Tight (· ∈ client.opened) (remembered client.sockfd)

section Step
variable {before after : ClientSystem} {label : Label} {events : List Event} {past : List (Entry SOCKET)}

theorem Kept.connects {client : TcpClient} (kept : Kept past client) (remoteIp : Str)
    {calls : ConnectCalls} (unused : calls.socket ∉ client.opened) :
    Kept (past ++ if calls.initResult = 0 ∧ calls.socket ≠ invalidSocket then [acquired calls.socket] else [])
        (client.connectTo remoteIp calls).1 ∧
      (Single (client.connectTo remoteIp calls).1 ↔ Single client ∧ client.sockfd = invalidSocket) := by
  have forgotten : remembered client.sockfd = none ↔ client.sockfd = invalidSocket := remembered_eq_none
  unfold Single
  rw [← forgotten]
  obtain ⟨-, ⟨init, valid, sockfd, opened⟩ | ⟨failed, -, sockfd, opened⟩⟩ :=
    connectTo_cases remoteIp calls client
  · rw [if_pos ⟨init, valid⟩]
    refine ⟨⟨?_, ?_⟩, ?_⟩
    · intro fd same
      rw [sockfd] at same
      rw [opened, ← (remembered_eq_some.mp same).2]
      exact Finset.mem_insert_self _ _
    · apply kept.holding.acquire (by simpa using unused)
      intro fd
      rw [opened]
      by_cases own : fd = calls.socket
      · simp [own]
      · simp [own]
    · rw [sockfd, remembered_eq_some.mpr ⟨valid, rfl⟩, opened]
      exact kept.owns.tight_replace unused fun fd => Finset.mem_insert
  · rw [if_neg failed, List.append_nil, sockfd, opened]
    refine ⟨⟨by rw [sockfd]; nofun, by simpa only [opened] using kept.holding⟩, ?_⟩
    exact kept.owns.tight_forget

theorem Kept.closes {client : TcpClient} (kept : Kept past client) :
    Kept (past ++ (remembered client.sockfd).toList.map released) client.closeSocket ∧
      client.closeSocket.sockfd = invalidSocket ∧
      ∀ fd, fd ∈ client.closeSocket.opened ↔ fd ∈ client.opened ∧ remembered client.sockfd ≠ some fd := by
  have removed : ∀ fd, fd ∈ client.closeSocket.opened ↔
      fd ∈ client.opened ∧ remembered client.sockfd ≠ some fd := by
    intro fd
    unfold closeSocket remembered
    by_cases invalid : client.sockfd = invalidSocket
    · simp [invalid]
    · simp [invalid, and_comm, eq_comm]
  refine ⟨⟨nofun, kept.holding.releaseAll ?_ ?_ ?_⟩, rfl, removed⟩
  · cases remembered client.sockfd <;> simp
  · intro fd member
    exact decide_eq_true (kept.owns fd (Option.mem_toList.mp member))
  · intro fd
    simp only [removed, Option.mem_toList]
    by_cases own : remembered client.sockfd = some fd
    · simp [own]
    · simp [own]

theorem step_kept (kept : Kept past before.client) (stepped : step before label = some (after, events)) :
    Kept (past ++ entries ⟨before, label, events⟩) after.client ∧
      (Single after.client ↔ Single before.client ∧ ¬ Leaks ⟨before, label, events⟩) := by
  cases step_changed stepped with
  | connects unused =>
      obtain ⟨still, single⟩ := kept.connects _ unused
      refine ⟨still, single.trans (and_congr_right' not_not.symm)⟩
  | finishes =>
      obtain ⟨still, -, removed⟩ := kept.closes
      exact ⟨still, (tight_release removed).trans (and_iff_left id).symm⟩
  | stops =>
      have silent : entries ⟨before, .stop, []⟩ = [] := rfl
      rw [silent, List.append_nil]
      exact ⟨⟨kept.owns, kept.holding⟩, (and_iff_left id).symm⟩
  | moves own running moved =>
      have silent : entries ⟨before, label, events⟩ = [] := by
        cases label with
        | connectTo | finish => cases own
        | _ => rfl
      have unleaked : ¬ Leaks ⟨before, label, events⟩ := by
        cases label with
        | connectTo => cases own
        | _ => exact id
      rw [silent, List.append_nil, and_iff_left unleaked]
      rcases receiveTask_moved moved with ⟨-, rfl⟩ | ⟨-, rfl⟩
      · exact ⟨kept, Iff.rfl⟩
      · exact ⟨⟨kept.owns, kept.holding⟩, Iff.rfl⟩

theorem run_kept {steps : List (Taken ClientSystem Label Event)} {final : ClientSystem}
    (run : Run step boot steps final) :
    Kept (ledger steps) final.client ∧ (Single final.client ↔ ∀ taken ∈ steps, ¬ Leaks taken) := by
  apply run.exactly (fun past system => Kept (ledger past) system.client) (fun system => Single system.client) Leaks
  · exact ⟨⟨nofun, holding_nil.congr fun _ => rfl⟩, by simp [Single, Tight, boot, init]⟩
  · intro past before label after events kept stepped
    rw [ledger_snoc]
    exact step_kept kept stepped

theorem ledger_settled_iff {steps : List (Taken ClientSystem Label Event)} (run : Run step boot steps before)
    (stepped : step before .finish = some (after, events)) :
    (∀ fd, Settled (marks fd (ledger (steps ++ [⟨before, .finish, events⟩])))) ↔
      ∀ taken ∈ steps, ¬ Leaks taken := by
  obtain ⟨kept, single⟩ := run_kept run
  obtain ⟨now, exactly⟩ := step_kept kept stepped
  rw [ledger_snoc, now.holding.settled_iff, ← single,
    show Single before.client ↔ Single after.client from (exactly.trans (and_iff_left id)).symm]
  cases step_changed stepped with
  | moves own => cases own
  | finishes =>
      simp only [decide_eq_false_iff_not]
      exact tight_none.symm

end Step

end ClientSystem

/-- When `finish` returns, everything `Socket` and `Accept` have returned has been closed once, exactly
if no `Socket` of a `start`, and no `connectTo` at all, has overwritten a descriptor that was still
remembered; and at no time has anything been closed twice. -/
theorem descriptors_settled_iff {descriptors : List SOCKET}
    {steps : List (Taken System TcpServer.Label TcpServer.Event)} {before after : System}
    {events : List TcpServer.Event} (run : Run System.step (.boot descriptors) steps before)
    (finished : System.step before .finish = some (after, events))
    {steps' : List (Taken ClientSystem TcpClient.Label TcpClient.Event)} {before' after' : ClientSystem}
    {events' : List TcpClient.Event} (run' : Run ClientSystem.step .boot steps' before')
    (finished' : ClientSystem.step before' .finish = some (after', events')) :
    (((∀ fd, Settled (marks fd (System.ledger (steps ++ [⟨before, .finish, events⟩])))) ↔
        ∀ taken ∈ steps, ¬ System.Leaks taken) ∧
      ∀ fd, ∃ held, InTurn held (marks fd (System.ledger steps))) ∧
    ((∀ fd, Settled (marks fd (ClientSystem.ledger (steps' ++ [⟨before', .finish, events'⟩])))) ↔
        ∀ taken ∈ steps', ¬ ClientSystem.Leaks taken) ∧
      ∀ fd, ∃ held, InTurn held (marks fd (ClientSystem.ledger steps')) := by
  constructor
  · exact ⟨System.ledger_settled_iff run finished, fun fd => ⟨_, (System.run_kept run).1.holding fd⟩⟩
  · exact ⟨ClientSystem.ledger_settled_iff run' finished',
      fun fd => ⟨_, (ClientSystem.run_kept run').1.holding fd⟩⟩

def connecting (socket : SOCKET) : ConnectCalls := ⟨0, socket, 0, 0, 0, 0, 0⟩

/-- A server accepts a client and is finished, and a client connects and is finished. -/
theorem descriptors_settled_iff_finished : ∃ steps steps',
    System.ledger steps = [acquired 3, acquired 4, released 4, released 3] ∧
      (∀ fd, Settled (marks fd (System.ledger steps))) ∧
      ClientSystem.ledger steps' = [acquired 3, released 3] ∧
      ∀ fd, Settled (marks fd (ClientSystem.ledger steps')) := by
  have computed : (exec System.step (.boot [0, 1, 2]) (.start (System.listening 3) [] ::
      System.acceptPass 4 0 ++ [.stop, .serverTask])).any (fun (steps, final) =>
        (System.step final .finish).any fun (_, events) =>
          decide (∀ taken ∈ steps, ¬ System.Leaks taken) &&
            decide (System.ledger (steps ++ [⟨final, .finish, events⟩]) =
              [acquired 3, acquired 4, released 4, released 3])) = true := by
    decide +kernel
  have computed' : (exec ClientSystem.step .boot [.connectTo [] (connecting 3), .stop,
      .receiveTask]).any (fun (steps, final) =>
        (ClientSystem.step final .finish).any fun (_, events) =>
          decide (∀ taken ∈ steps, ¬ ClientSystem.Leaks taken) &&
            decide (ClientSystem.ledger (steps ++ [⟨final, .finish, events⟩]) =
              [acquired 3, released 3])) = true := by
    decide +kernel
  obtain ⟨steps, final, run, checked⟩ := exists_run_of_exec computed
  obtain ⟨steps', final', run', checked'⟩ := exists_run_of_exec computed'
  simp only [Option.any_eq_true, Bool.and_eq_true, decide_eq_true_eq, Prod.exists] at checked checked'
  obtain ⟨after, events, finished, tight, ledger⟩ := checked
  obtain ⟨after', events', finished', tight', ledger'⟩ := checked'
  have settled := descriptors_settled_iff run finished run' finished'
  exact ⟨_, _, ledger, settled.1.1.mpr tight, ledger', settled.2.1.mpr tight'⟩

/-- A start fails after its `Socket`, and the next one succeeds; and the same of a client. -/
theorem retry_leaks : (∃ steps final, Run System.step (.boot [0, 1, 2]) steps final ∧
      steps.getLast?.map (·.label) = some .finish ∧ ¬ Settled (marks 3 (System.ledger steps))) ∧
    ∃ steps final, Run ClientSystem.step .boot steps final ∧
      steps.getLast?.map (·.label) = some .finish ∧ ¬ Settled (marks 3 (ClientSystem.ledger steps)) := by
  have unsettled : ¬ Settled [.acquired] := fun settled => by simpa using settled.held_iff
  have computed : (exec System.step (.boot [0, 1, 2]) [
      .start { System.listening 3 with bind := -1 } [], .start (System.listening 4) [], .stop,
      .serverTask, .finish]).any (fun (steps, _) => steps.getLast?.map (·.label) == some .finish &&
        marks 3 (System.ledger steps) == [.acquired]) = true := by
    decide +kernel
  have computed' : (exec ClientSystem.step .boot [.connectTo [] { connecting 3 with connect := -1 },
      .connectTo [] (connecting 4), .stop, .receiveTask, .finish]).any (fun (steps, _) =>
        steps.getLast?.map (·.label) == some .finish &&
          marks 3 (ClientSystem.ledger steps) == [.acquired]) = true := by
    decide +kernel
  obtain ⟨steps, final, run, checked⟩ := exists_run_of_exec computed
  obtain ⟨steps', final', run', checked'⟩ := exists_run_of_exec computed'
  simp only [Bool.and_eq_true, beq_iff_eq] at checked checked'
  exact ⟨⟨steps, final, run, checked.1, checked.2 ▸ unsettled⟩,
    steps', final', run', checked'.1, checked'.2 ▸ unsettled⟩

end ZmqPlayground
