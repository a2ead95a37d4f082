import ZmqPlayground.Common.Pass
import ZmqPlayground.Common.Sessions

/-! What becomes of a client whose `Recv` has returned no data.

The server thread takes a client out of its table and reports it when the end of
the stream is received, and does neither when `Recv` fails. Other threads may
delete clients at any time. A handle stands for the connection accepted under
it last.
-/

set_option autoImplicit false

namespace ZmqPlayground

open Library
open Library.Runs
open Library.Sessions

namespace TcpServer

def owner (events : List Event) (handle : ClientHandle) : Option ℕ := lastAccepted (acts handle events)

/-- `Recv` on the connection has returned a value below 1. -/
def Failed (connection : ℕ) (events : List Event) : Prop :=
  ∃ fd number data, .recv fd (some (.connection connection)) number data ∈ events ∧ number < 1

def Event.reports (past : List Event) : Event → Option ℕ
  | .callback (.onClientDisconnect client _) => owner past client
  | _ => none

/-- The connections that the `onClientDisconnect` callbacks of `rest` have been about. -/
def reportsAfter : List Event → List Event → List ℕ
  | _, [] => []
  | past, event :: rest => (event.reports past).toList ++ reportsAfter (past ++ [event]) rest

def reports (events : List Event) : List ℕ := reportsAfter [] events

theorem reports_snoc (past : List Event) (event : Event) :
    reports (past ++ [event]) = reports past ++ (event.reports past).toList := by
  suffices all : ∀ first rest, reportsAfter first (rest ++ [event]) =
      reportsAfter first rest ++ (event.reports (first ++ rest)).toList from all [] past
  intro first rest
  induction rest generalizing first with
  | nil => simp [reportsAfter]
  | cons next rest ih =>
      rw [List.cons_append, reportsAfter, reportsAfter, ih, List.append_assoc, List.append_assoc]
      rfl

theorem owner_snoc (past : List Event) (event : Event) (handle : ClientHandle) :
    owner (past ++ [event]) handle =
      ((event.act handle).bind Act.accepted).or (owner past handle) := by
  unfold owner
  rw [acts_snoc]
  cases event.act handle with
  | none => simp
  | some act => rw [Option.toList_some, lastAccepted_snoc, Option.bind_some]

theorem failed_snoc (connection : ℕ) (past : List Event) (event : Event) :
    Failed connection (past ++ [event]) ↔ Failed connection past ∨ Failed connection [event] := by
  unfold Failed
  simp only [List.mem_append, or_and_right, exists_or]

/-- Nothing has happened that handles, failures and reports depend on. -/
structure Same (past now : List Event) : Prop where
  owners : ∀ handle, owner now handle = owner past handle
  failures : ∀ connection, Failed connection now ↔ Failed connection past
  reports : reports now = reports past

theorem Same.refl (past : List Event) : Same past past := ⟨fun _ => rfl, fun _ => Iff.rfl, rfl⟩

theorem Same.append_nil (past : List Event) : Same past (past ++ []) := by
  rw [List.append_nil]
  exact .refl past

theorem Same.snoc {event : Event} (unaccepted : ∀ handle, (event.act handle).bind Act.accepted = none)
    (unfailed : ∀ connection, ¬ Failed connection [event]) (past : List Event)
    (unreported : event.reports past = none) : Same past (past ++ [event]) where
  owners handle := by rw [owner_snoc, unaccepted, Option.none_or]
  failures connection := by rw [failed_snoc, or_iff_left (unfailed connection)]
  reports := by rw [reports_snoc, unreported, Option.toList_none, List.append_nil]

theorem Same.returned (ret : Return) (past : List Event) : Same past (past ++ [.returned ret]) :=
  .snoc (fun _ => rfl) (by simp [Failed]) past rfl

theorem Same.started (ret : SocketRet) (past : List Event) : Same past (past ++ [.started ret]) :=
  .snoc (fun _ => rfl) (by simp [Failed]) past rfl

theorem Same.recv {fd : SOCKET} {object : Option Object} {number : Int} {data : List Byte}
    (harmless : (∀ connection, object ≠ some (.connection connection)) ∨ ¬ number < 1) (past : List Event) :
    Same past (past ++ [.recv fd object number data]) := by
  refine .snoc (fun _ => rfl) ?_ past rfl
  rintro connection ⟨_, _, _, member, failed⟩
  cases List.mem_singleton.mp member
  exact harmless.elim (fun foreign => foreign connection rfl) (fun positive => positive failed)

theorem Same.act (callback : Callback) (handle : ClientHandle) :
    ((Event.callback callback).act handle).bind Act.accepted = none := by
  cases callback <;> simp only [Event.act, Callback.act] <;> split <;> rfl

theorem owner_recv (past : List Event) (fd handle : SOCKET) (object : Option Object) (number : Int)
    (data : List Byte) : owner (past ++ [.recv fd object number data]) handle = owner past handle :=
  owner_snoc _ _ _

theorem owner_callback (past : List Event) (callback : Callback) (handle : ClientHandle) :
    owner (past ++ [.callback callback]) handle = owner past handle := by
  rw [owner_snoc, Same.act, Option.none_or]

theorem owner_accept (past : List Event) (fd clientfd handle : SOCKET) (connection : ℕ) :
    owner (past ++ [.accept fd clientfd connection]) handle =
      if handle = clientfd then some connection else owner past handle := by
  rw [owner_snoc, Event.act]
  by_cases own : handle = clientfd
  · simp [own, Act.accepted]
  · simp [own, Ne.symm own]

theorem reports_recv (past : List Event) (fd : SOCKET) (object : Option Object) (number : Int) (data : List Byte) :
    reports (past ++ [.recv fd object number data]) = reports past :=
  (reports_snoc _ _).trans (List.append_nil _)

theorem reports_accept (past : List Event) (fd clientfd : SOCKET) (connection : ℕ) :
    reports (past ++ [.accept fd clientfd connection]) = reports past :=
  (reports_snoc _ _).trans (List.append_nil _)

theorem failed_accept (past : List Event) (fd clientfd : SOCKET) (number connection : ℕ) :
    Failed connection (past ++ [.accept fd clientfd number]) ↔ Failed connection past := by
  rw [failed_snoc]
  apply or_iff_left
  simp [Failed]

def Pc.reporting : Pc → Option ClientHandle
  | .delete pass => some pass.fd
  | .publish _ (.disconnected client) => some client
  | _ => none

def Pc.pending : Pc → Option ClientHandle
  | .recv pass => some pass.fd
  | pc => pc.reporting

def Pc.entering : Pc → Option SOCKET
  | .emplace _ clientfd _ _ | .watch _ clientfd => some clientfd
  | _ => none

/-- What has been emitted is about the connections there have been, and the open ones have not been
reported. -/
structure Traced (past : List Event) (kernel : Kernel) : Prop where
  owned : ∀ {fd connection}, kernel.object fd = some (.connection connection) →
    owner past fd = some connection
  older : ∀ {handle connection}, owner past handle = some connection → connection < kernel.connections
  sole : ∀ {handle other connection}, owner past handle = some connection →
    owner past other = some connection → handle = other
  unreported : ∀ {fd connection}, kernel.object fd = some (.connection connection) →
    connection ∉ reports past
  counted : ∀ {connection}, Failed connection past ∨ connection ∈ reports past →
    connection < kernel.connections

section Trace
variable {past now : List Event} {kernel after : Kernel}

theorem Traced.of_same (traced : Traced past kernel) (same : Same past now)
    (fewer : ∀ {fd connection}, after.object fd = some (.connection connection) →
      kernel.object fd = some (.connection connection))
    (counts : kernel.connections ≤ after.connections) : Traced now after where
  owned object := (same.owners _).trans (traced.owned (fewer object))
  older owned := (traced.older ((same.owners _).symm.trans owned)).trans_le counts
  sole owned other := traced.sole ((same.owners _).symm.trans owned) ((same.owners _).symm.trans other)
  unreported object := same.reports ▸ traced.unreported (fewer object)
  counted known := by
    rw [same.failures, same.reports] at known
    exact (traced.counted known).trans_le counts

theorem Traced.accept (traced : Traced past kernel) (fd clientfd : SOCKET) :
    Traced (past ++ [.accept fd clientfd kernel.connections]) (kernel.accept clientfd) := by
  constructor
  · intro other connection object
    rw [Kernel.object_accept] at object
    rw [owner_accept]
    split at object
    · rename_i own
      cases object
      exact if_pos own
    · rename_i different
      rw [if_neg different]
      exact traced.owned object
  · intro handle connection owned
    rw [owner_accept] at owned
    split at owned
    · cases owned
      exact Nat.lt_succ_self _
    · exact (traced.older owned).trans (Nat.lt_succ_self _)
  · intro handle other connection owned owned'
    rw [owner_accept] at owned owned'
    split at owned <;> split at owned'
    · simp_all
    · cases owned
      exact absurd (traced.older owned') (lt_irrefl _)
    · cases owned'
      exact absurd (traced.older owned) (lt_irrefl _)
    · exact traced.sole owned owned'
  · intro other connection object
    rw [Kernel.object_accept] at object
    rw [reports_accept]
    split at object
    · cases object
      exact fun member => absurd (traced.counted (.inr member)) (lt_irrefl _)
    · exact traced.unreported object
  · intro connection known
    rw [failed_accept, reports_accept] at known
    exact (traced.counted known).trans (Nat.lt_succ_self _)

theorem Traced.fails (traced : Traced past kernel) (fd : SOCKET) (number : Int) (data : List Byte) :
    Traced (past ++ [.recv fd (kernel.object fd) number data]) kernel := by
  constructor
  · exact fun object => (owner_recv ..).trans (traced.owned object)
  · exact fun owned => traced.older ((owner_recv ..).symm.trans owned)
  · exact fun owned other => traced.sole ((owner_recv ..).symm.trans owned) ((owner_recv ..).symm.trans other)
  · intro other connection object
    rw [reports_recv]
    exact traced.unreported object
  · intro connection known
    rw [failed_snoc, reports_recv, or_assoc] at known
    rcases known with earlier | new | earlier
    · exact traced.counted (.inl earlier)
    · obtain ⟨_, _, _, member, -⟩ := new
      injection List.mem_singleton.mp member with _ object
      exact kernel.counted fd connection object.symm
    · exact traced.counted (.inr earlier)

theorem Traced.publish (traced : Traced past kernel) (callback : Callback)
    (closed : ∀ connection, (Event.callback callback).reports past = some connection →
      ∀ fd, kernel.object fd ≠ some (.connection connection)) :
    Traced (past ++ [.callback callback]) kernel := by
  have older : ∀ connection, (Event.callback callback).reports past = some connection →
      connection < kernel.connections := by
    intro connection found
    unfold Event.reports at found
    split at found
    · exact traced.older found
    · cases found
  constructor
  · exact fun object => (owner_callback ..).trans (traced.owned object)
  · exact fun owned => traced.older ((owner_callback ..).symm.trans owned)
  · exact fun owned other => traced.sole ((owner_callback ..).symm.trans owned) ((owner_callback ..).symm.trans other)
  · intro fd connection object member
    rw [reports_snoc, List.mem_append, Option.mem_toList] at member
    rcases member with earlier | new
    · exact traced.unreported object earlier
    · exact closed connection new fd object
  · intro connection known
    rw [failed_snoc, reports_snoc, List.mem_append, Option.mem_toList] at known
    rcases known with (earlier | new) | earlier | new
    · exact traced.counted (.inl earlier)
    · simp [Failed] at new
    · exact traced.counted (.inr earlier)
    · exact older connection new

end Trace

/-- A client that is being reported has been deleted. -/
structure Located (past : List Event) (server : TcpServer) (pc : Pc) : Prop
    extends Traced past server.kernel where
  table : Registered server pc.arriving
  deleted : ∀ {client}, pc.leaving = some client → client ∉ server.clients

/-- The connection is closed, its handle is in neither set until it is given to another one, and it
has been reported once. -/
structure Closed (connection : ℕ) (past : List Event) (server : TcpServer) : Prop where
  gone : ∀ fd, server.kernel.object fd ≠ some (.connection connection)
  removed : ∀ {handle}, owner past handle = some connection →
    handle ∉ server.clients ∧ handle ∉ server.fds
  once : (reports past).count connection = 1

/-- Where a connection stands whose `Recv` has returned a value below 1. -/
inductive Fate (connection : ℕ) (past : List Event) (server : TcpServer) (pc : Pc) : Prop where
  | present {pass : Pass} (here : pc = .delete pass)
      (object : server.kernel.object pass.fd = some (.connection connection))
  | leaving {handle : ClientHandle} (here : pc.reporting = some handle)
      (owned : owner past handle = some connection)
      (removed : handle ∉ server.clients ∧ handle ∉ server.fds)
      (gone : ∀ fd, server.kernel.object fd ≠ some (.connection connection))
      (never : connection ∉ reports past)
  | settled (closed : Closed connection past server)
      (other : ∀ {handle}, pc.pending = some handle → owner past handle ≠ some connection)

/-- No client stays in the table without a connection but the one that is deleted next. -/
structure Followed (past : List Event) (server : TcpServer) (pc : Pc) : Prop
    extends Located past server pc where
  entering : ∀ {fd connection}, pc.entering = some fd → owner past fd = some connection →
    ¬ Failed connection past
  connected : ∀ {handle client}, server.clients.lookup handle = some client →
    client.isConnected = true ∨ ∃ pass, pc = .delete pass ∧ pass.fd = handle
  fate : ∀ {connection}, Failed connection past → Fate connection past server pc

section Preserve
variable {past now : List Event} {server after : TcpServer} {pc later : Pc} {msg : List Byte}
  {label : Label} {task : Task} {events : List Event} {connection : ℕ}

theorem Closed.mono (closed : Closed connection past server)
    (fewer : ∀ fd, after.kernel.object fd = some (.connection connection) →
      server.kernel.object fd = some (.connection connection))
    (kept : ∀ {handle}, owner now handle = some connection → owner past handle = some connection ∧
      (handle ∈ after.clients → handle ∈ server.clients) ∧ (handle ∈ after.fds → handle ∈ server.fds))
    (same : reports now = reports past) : Closed connection now after where
  gone fd := mt (fewer fd) (closed.gone fd)
  removed owned := by
    obtain ⟨before, members, watched⟩ := kept owned
    exact ⟨mt members (closed.removed before).1, mt watched (closed.removed before).2⟩
  once := same ▸ closed.once

theorem Fate.of_same (fate : Fate connection past server pc) (same : Same past now)
    (clients : after.clients = server.clients) (fds : after.fds = server.fds)
    (others : server.kernel.Others after.kernel) : Fate connection now after pc := by
  have fewer := fun fd => (others.connection_iff fd connection).mp
  cases fate with
  | present here object => exact .present here ((others.connection_iff _ _).mpr object)
  | leaving here owned removed gone never =>
      refine .leaving here ((same.owners _).trans owned) ?_ (fun fd => mt (fewer fd) (gone fd))
        (same.reports ▸ never)
      rwa [clients, fds]
  | settled closed other =>
      refine .settled (closed.mono fewer (fun owned => ⟨?_, ?_⟩) same.reports) ?_
      · exact (same.owners _).symm.trans owned
      · rw [clients, fds]
        exact ⟨id, id⟩
      · exact fun pending owned => other pending ((same.owners _).symm.trans owned)

theorem Registered.object_deleteClient {arriving : Option SOCKET} (table : Registered server arriving)
    {handle fd : SOCKET} :
    (server.deleteClient handle).1.kernel.object fd = some (.connection connection) ↔
      server.kernel.object fd = some (.connection connection) ∧ (fd = handle → handle ∉ server.clients) := by
  by_cases member : handle ∈ server.clients
  · rw [table.deleteClient_eq member]
    simp only [Kernel.object_close]
    by_cases own : fd = handle
    · simp [own, member]
    · simp [own]
  · rw [deleteClient_of_not_mem member]
    simp [member]

theorem Registered.lookup_deleteClient {arriving : Option SOCKET} (table : Registered server arriving)
    {handle other : ClientHandle} {client : Client}
    (found : (server.deleteClient handle).1.clients.lookup other = some client) :
    server.clients.lookup other = some client ∧ other ≠ handle := by
  by_cases member : handle ∈ server.clients
  · rw [table.deleteClient_eq member, Table.lookup_erase] at found
    split at found
    · cases found
    · rename_i different
      exact ⟨found, different⟩
  · rw [deleteClient_of_not_mem member] at found
    refine ⟨found, ?_⟩
    rintro rfl
    exact member (Table.mem_of_lookup found)

theorem Registered.mem_deleteClient {arriving : Option SOCKET} (table : Registered server arriving)
    {handle other : ClientHandle} (still : other ∈ (server.deleteClient handle).1.clients) :
    other ∈ server.clients ∧ other ≠ handle := by
  obtain ⟨client, found⟩ := Table.exists_lookup still
  obtain ⟨before, different⟩ := table.lookup_deleteClient found
  exact ⟨Table.mem_of_lookup before, different⟩

theorem Registered.watched_deleteClient {arriving : Option SOCKET} (table : Registered server arriving)
    {handle fd : SOCKET} (still : fd ∈ (server.deleteClient handle).1.fds) :
    fd ∈ server.fds ∧ (fd = handle → handle ∉ server.clients) := by
  by_cases member : handle ∈ server.clients
  · rw [table.deleteClient_eq member] at still
    obtain ⟨different, old⟩ := Finset.mem_erase.mp still
    exact ⟨old, fun own => absurd own different⟩
  · rw [deleteClient_of_not_mem member] at still
    exact ⟨still, fun _ => member⟩

theorem Fate.deleteClient (located : Located past server pc) (fate : Fate connection past server pc)
    (handle : ClientHandle) : Fate connection past (server.deleteClient handle).1 pc := by
  -- If the client that is about to be deleted is deleted by another thread, it is still reported.
  have table := located.table
  cases fate with
  | @present pass here object =>
      subst here
      by_cases own : pass.fd = handle
      · subst own
        have member := (table.registered object).resolve_right nofun
        refine .leaving rfl (located.owned object) ⟨fun still => ?_, fun still => ?_⟩ (fun fd found => ?_)
          (located.unreported object)
        · exact (table.mem_deleteClient still).2 rfl
        · exact (table.watched_deleteClient still).2 rfl member
        · obtain ⟨still, kept⟩ := table.object_deleteClient.mp found
          exact kept (server.kernel.unique _ _ _ still object) member
      · exact .present rfl (table.object_deleteClient.mpr ⟨object, fun same => absurd same own⟩)
  | leaving here owned removed gone never =>
      refine .leaving here owned ⟨fun still => ?_, fun still => ?_⟩ (fun fd found => ?_) never
      · exact removed.1 (table.mem_deleteClient still).1
      · exact removed.2 (table.watched_deleteClient still).1
      · exact gone fd (table.object_deleteClient.mp found).1
  | settled closed other =>
      refine .settled (closed.mono (fun _ found => ?_) (fun owned => ⟨owned, fun still => ?_, fun still => ?_⟩)
        rfl) other
      · exact (table.object_deleteClient.mp found).1
      · exact (table.mem_deleteClient still).1
      · exact (table.watched_deleteClient still).1

theorem Located.deleteClient (located : Located past server pc) (handle : ClientHandle) :
    Located past (server.deleteClient handle).1 pc where
  toTraced := by
    refine located.toTraced.of_same (.refl _) (fun object => ?_) (later_deleteClient _ _).counts
    exact (located.table.object_deleteClient.mp object).1
  table := located.table.deleteClient handle
  deleted here still := located.deleted here (located.table.mem_deleteClient still).1

theorem Followed.deleteClient (followed : Followed past server pc) (handle : ClientHandle) :
    Followed past (server.deleteClient handle).1 pc where
  toLocated := followed.toLocated.deleteClient handle
  entering := followed.entering
  connected found := followed.connected (followed.table.lookup_deleteClient found).1
  fate failed := (followed.fate failed).deleteClient followed.toLocated handle

theorem Moved.traced (moved : Moved server msg pc label after task events)
    (located : Located past server pc) : Traced (past ++ events) after.kernel := by
  have traced := located.toTraced
  cases moved with
  | recvFails | recvCloses | receives => exact traced.fails _ _ _
  | accepts => exact traced.accept _ _
  | deletes =>
      refine traced.of_same (.append_nil _) (fun object => ?_) (later_deleteClient _ _).counts
      exact (located.table.object_deleteClient.mp object).1
  | @publishes pass notice =>
      refine traced.publish _ fun connection found fd object => ?_
      cases notice with
      | clientMsg | clientConnect => cases found
      | disconnected client =>
          -- An open connection is still in the table under its handle, from which this client is gone.
          obtain rfl := traced.sole (traced.owned object) found
          exact located.deleted rfl ((located.table.registered object).resolve_right nofun)
  | _ => exact traced.of_same (.append_nil _) id (le_refl _)

theorem Moved.located (moved : Moved server msg pc label after task events)
    (located : Located past server pc) : Located (past ++ events) after task.pc := by
  refine ⟨moved.traced located, moved.registered located.table, fun {client} leaves => ?_⟩
  cases moved with
  | deletes =>
      cases leaves
      exact fun still => (located.table.mem_deleteClient still).2 rfl
  | _ => cases leaves

/-- Only before a deletion a client may be in the table without a connection. -/
theorem Followed.connected_elsewhere (followed : Followed past server pc) (elsewhere : ∀ pass, pc ≠ .delete pass)
    {handle : ClientHandle} {client : Client} (found : server.clients.lookup handle = some client) :
    client.isConnected = true := by
  cases followed.connected found with
  | inl connected => exact connected
  | inr deleting =>
      obtain ⟨pass, here, -⟩ := deleting
      exact absurd here (elsewhere pass)

theorem Fate.settled_of_idle (fate : Fate connection past server pc) (idle : pc.reporting = none) :
    Closed connection past server ∧ ∀ {handle}, pc.pending = some handle → owner past handle ≠ some connection := by
  cases fate with
  | present here =>
      subst here
      cases idle
  | leaving here =>
      rw [here] at idle
      cases idle
  | settled closed other => exact ⟨closed, other⟩

theorem Followed.passes (followed : Followed past server pc) (located : Located now server later)
    (same : Same past now) (idle : pc.reporting = none) (free : later.entering = none)
    (pending : ∀ {handle}, later.pending = some handle → handle ∈ server.clients) :
    Followed now server later where
  toLocated := located
  entering := by
    rw [free]
    exact nofun
  connected found := by
    apply Or.inl (followed.connected_elsewhere _ found)
    rintro pass rfl
    cases idle
  fate failed := by
    obtain ⟨closed, other⟩ := (followed.fate ((same.failures _).mp failed)).settled_of_idle idle
    have owners := fun handle => (same.owners handle).symm
    refine .settled (closed.mono (fun _ => id) (fun owned => ⟨?_, id, id⟩) same.reports) ?_
    · exact (owners _).trans owned
    · exact fun waits owned => (closed.removed ((owners _).trans owned)).1 (pending waits)

theorem Followed.ends {pass : Pass} (followed : Followed past server (.recv pass)) :
    Followed (past ++ [.recv pass.fd (server.kernel.object pass.fd) 0 []])
      (server.markDisconnected pass.fd) (.delete pass) where
  toLocated := (@Moved.recvCloses server [] pass).located followed.toLocated
  entering := nofun
  connected := by
    intro handle client found
    unfold markDisconnected at found
    rw [Table.lookup_modify] at found
    split at found
    · rename_i own
      exact .inr ⟨pass, rfl, own.symm⟩
    · exact .inl (followed.connected_elsewhere nofun found)
  fate := by
    intro connection failed
    rcases (failed_snoc _ _ _).mp failed with earlier | new
    · obtain ⟨closed, other⟩ := (followed.fate earlier).settled_of_idle rfl
      refine .settled (closed.mono (fun _ => id) (fun owned => ⟨?_, ?_, id⟩) (reports_recv ..)) fun waits owned => ?_
      · exact (owner_recv ..).symm.trans owned
      · exact Table.mem_modify.mp
      · exact other waits ((owner_recv ..).symm.trans owned)
    · obtain ⟨_, _, _, member, -⟩ := new
      injection List.mem_singleton.mp member with _ object
      exact .present rfl object.symm

theorem Followed.deletes {pass : Pass} (followed : Followed past server (.delete pass)) :
    Followed past (server.deleteClient pass.fd).1 (.publish pass (.disconnected pass.fd)) where
  toLocated := by
    have located := (@Moved.deletes server [] pass).located followed.toLocated
    rwa [List.append_nil] at located
  entering := nofun
  connected := by
    intro handle client found
    obtain ⟨before, different⟩ := followed.table.lookup_deleteClient found
    refine (followed.connected before).imp_right ?_
    rintro ⟨_, ⟨⟩, own⟩
    exact absurd own.symm different
  fate := by
    intro connection failed
    cases (followed.deleteClient pass.fd).fate failed with
    | present here object =>
        cases here
        obtain ⟨before, kept⟩ := followed.table.object_deleteClient.mp object
        exact absurd ((followed.table.registered before).resolve_right nofun) (kept rfl)
    | leaving here owned removed gone never => exact .leaving here owned removed gone never
    | settled closed other => exact .settled closed other

theorem Followed.reports {pass : Pass} {client : ClientHandle}
    (followed : Followed past server (.publish pass (.disconnected client))) :
    Followed (past ++ [.callback (Notice.callback msg (.disconnected client))]) server (.callback pass) where
  toLocated := Moved.publishes.located followed.toLocated
  entering := nofun
  connected found := .inl (followed.connected_elsewhere nofun found)
  fate := by
    intro connection failed
    have reported : TcpServer.reports (past ++ [.callback (Notice.callback msg (.disconnected client))]) =
        TcpServer.reports past ++ (owner past client).toList := reports_snoc _ _
    have earlier := ((failed_snoc _ _ _).mp failed).resolve_right (by simp [Failed])
    cases followed.fate earlier with
    | present here => cases here
    | leaving here owned removed gone never =>
        cases here
        refine .settled ⟨gone, fun owned' => ?_, ?_⟩ nofun
        · rw [followed.sole ((owner_callback ..).symm.trans owned') owned]
          exact removed
        · rw [reported, owned, List.count_append, List.count_eq_zero_of_not_mem never]
          simp
    | settled closed other =>
        refine .settled ⟨closed.gone, fun owned => ?_, ?_⟩ nofun
        · exact closed.removed ((owner_callback ..).symm.trans owned)
        · rw [reported, List.count_append, closed.once, List.count_eq_zero_of_not_mem]
          rw [Option.mem_toList]
          exact other rfl

theorem Followed.accepts {pass : Pass} {clientfd : SOCKET} {ip : Str} {port : UInt16}
    (followed : Followed past server (.accept pass)) (valid : clientfd ≠ -1)
    (unused : ¬ server.kernel.IsOpen clientfd) :
    Followed (past ++ [.accept pass.fd clientfd server.kernel.connections])
      { server with kernel := server.kernel.accept clientfd } (.emplace pass clientfd ip port) := by
  have fresh : ∀ {connection}, Failed connection past → connection ≠ server.kernel.connections :=
    fun failed => (followed.counted (.inl failed)).ne
  refine ⟨(@Moved.accepts server [] pass clientfd ip port valid unused).located followed.toLocated, ?_, ?_, ?_⟩
  · rintro fd connection ⟨⟩ owned failed
    rw [owner_accept, if_pos rfl] at owned
    exact fresh ((failed_accept ..).mp failed) (Option.some.inj owned).symm
  · exact fun found => .inl (followed.connected_elsewhere nofun found)
  · intro connection failed
    have earlier := (failed_accept ..).mp failed
    obtain ⟨closed, -⟩ := (followed.fate earlier).settled_of_idle rfl
    refine .settled (closed.mono (fun fd object => ?_) (fun {handle} owned => ?_) (reports_accept ..)) nofun
    · rw [Kernel.object_accept] at object
      split at object
      · exact absurd (Object.connection.inj (Option.some.inj object)).symm (fresh earlier)
      · exact object
    · rw [owner_accept] at owned
      split at owned
      · exact absurd (Option.some.inj owned).symm (fresh earlier)
      · exact ⟨owned, id, id⟩

theorem Followed.emplaces {pass : Pass} {clientfd : SOCKET} {ip : Str} {port : UInt16}
    (followed : Followed past server (.emplace pass clientfd ip port)) :
    Followed past (server.addClient clientfd ip port) (.watch pass clientfd) := by
  have located := (@Moved.emplaces server [] pass clientfd ip port).located followed.toLocated
  rw [List.append_nil] at located
  obtain ⟨absent, -, -⟩ := followed.table.arrives rfl
  have added : (server.addClient clientfd ip port).clients =
      server.clients.insert clientfd ⟨ip, clientfd, port, true⟩ := Table.emplace_of_not_mem absent _
  refine ⟨located, followed.entering, ?_, ?_⟩
  · intro handle client found
    rw [added, Table.lookup_insert] at found
    split at found
    · cases found
      exact .inl rfl
    · exact .inl (followed.connected_elsewhere nofun found)
  · intro connection failed
    obtain ⟨closed, -⟩ := (followed.fate failed).settled_of_idle rfl
    refine .settled (closed.mono (fun _ => id) (fun {handle} owned => ⟨owned, ?_, id⟩) rfl) nofun
    rw [added, AList.mem_insert]
    rintro (rfl | old)
    · exact absurd failed (followed.entering rfl owned)
    · exact old

theorem Followed.watches {pass : Pass} {clientfd : SOCKET}
    (followed : Followed past server (.watch pass clientfd)) :
    Followed past { server with fds := insert clientfd server.fds } (.publish pass (.clientConnect clientfd)) := by
  have located := (@Moved.watches server [] pass clientfd).located followed.toLocated
  rw [List.append_nil] at located
  refine ⟨located, nofun, fun found => .inl (followed.connected_elsewhere nofun found), ?_⟩
  intro connection failed
  obtain ⟨closed, -⟩ := (followed.fate failed).settled_of_idle rfl
  refine .settled (closed.mono (fun _ => id) (fun {handle} owned => ⟨owned, id, ?_⟩) rfl) nofun
  rw [Finset.mem_insert]
  rintro (rfl | old)
  · exact absurd failed (followed.entering rfl owned)
  · exact old

def Event.Breaks : Event → Prop
  | .recv _ (some (.connection _)) numOfBytesReceived _ => numOfBytesReceived < 0
  | _ => False

instance (event : Event) : Decidable event.Breaks := by
  unfold Event.Breaks
  split <;> infer_instance

theorem Event.Breaks.isRecv {event : Event} (breaks : event.Breaks) :
    ∃ fd connection number data, event = .recv fd (some (.connection connection)) number data ∧ number < 0 := by
  unfold Event.Breaks at breaks
  split at breaks
  · exact ⟨_, _, _, _, rfl, breaks⟩
  · exact breaks.elim

theorem Moved.breaks (moved : Moved server msg pc label after task events) {event : Event}
    (emitted : event ∈ events) (breaks : event.Breaks) :
    ∃ pass connection number, pc = .recv pass ∧ server.kernel.object pass.fd = some (.connection connection) ∧
      number < 0 ∧ events = [.recv pass.fd (some (.connection connection)) number []] ∧
      task.pc = .scan pass.next := by
  obtain ⟨fd, connection, number, data, rfl, negative⟩ := breaks.isRecv
  cases moved with
  | @recvFails pass =>
      injection List.mem_singleton.mp emitted with _ object same _
      subst same
      exact ⟨pass, connection, number, rfl, object.symm, negative, by rw [object], rfl⟩
  | recvCloses | receives =>
      injection List.mem_singleton.mp emitted with _ _ same _
      omega
  | accepts | publishes => cases List.mem_singleton.mp emitted
  | _ => cases emitted

theorem Moved.followed (moved : Moved server msg pc label after task events)
    (followed : Followed past server pc) (sound : ∀ event ∈ events, ¬ event.Breaks) :
    Followed (past ++ events) after task.pc := by
  have located := moved.located followed.toLocated
  cases moved with
  | exits | selects | retries | reports | ends | skips | misses | acceptFails | returns =>
      exact followed.passes located (.append_nil _) rfl rfl nofun
  | finds inside reported member =>
      refine followed.passes located (.append_nil _) rfl rfl ?_
      rintro _ ⟨⟩
      exact member
  | @recvFails pass number negative =>
      -- It is a descriptor that another thread has closed, so there is no client to be marked.
      have foreign : ∀ connection, server.kernel.object pass.fd ≠ some (.connection connection) := by
        intro connection object
        apply sound _ (List.mem_singleton_self _)
        rw [object]
        exact negative
      have absent : pass.fd ∉ server.clients := by
        intro member
        obtain ⟨-, connection, object⟩ := followed.table.connected member
        exact foreign connection object
      have same : server.markDisconnected pass.fd = server := by
        unfold markDisconnected Table.modify
        rw [AList.lookup_eq_none.mpr absent]
      rw [same] at located ⊢
      exact followed.passes located (.recv (.inl foreign) _) rfl rfl nofun
  | recvCloses => exact followed.ends
  | receives nonempty fits =>
      refine followed.passes located (.recv (.inr ?_) _) rfl rfl nofun
      have := List.length_pos_of_ne_nil nonempty
      omega
  | deletes =>
      rw [List.append_nil]
      exact followed.deletes
  | accepts valid unused => exact followed.accepts valid unused
  | emplaces =>
      rw [List.append_nil]
      exact followed.emplaces
  | watches =>
      rw [List.append_nil]
      exact followed.watches
  | @publishes pass notice =>
      cases notice with
      | disconnected client => exact followed.reports
      | clientMsg | clientConnect =>
          exact followed.passes located (.snoc (Same.act _) (by simp [Failed]) _ rfl) rfl rfl nofun

theorem Moved.reported (moved : Moved server msg pc label after task events) (past : List Event) :
    TcpServer.reports (past ++ events) = TcpServer.reports past ∨ ∃ client, pc.pending = some client ∧
      TcpServer.reports (past ++ events) = TcpServer.reports past ++ (owner past client).toList := by
  cases moved with
  | recvFails | recvCloses | receives => exact .inl (reports_recv ..)
  | accepts => exact .inl (reports_accept ..)
  | @publishes pass notice =>
      cases notice with
      | disconnected client => exact .inr ⟨client, rfl, reports_snoc _ _⟩
      | clientMsg | clientConnect => exact .inl ((reports_snoc _ _).trans (List.append_nil _))
  | _ => exact .inl (by rw [List.append_nil])

theorem Moved.owned (moved : Moved server msg pc label after task events) {handle : ClientHandle}
    (old : connection < server.kernel.connections)
    (owned : owner (past ++ events) handle = some connection) : owner past handle = some connection := by
  cases moved with
  | recvFails | recvCloses | receives => exact (owner_recv ..).symm.trans owned
  | accepts =>
      rw [owner_accept] at owned
      split at owned
      · cases owned
        exact absurd old (lt_irrefl _)
      · exact owned
  | publishes => exact (owner_callback ..).symm.trans owned
  | _ => rwa [List.append_nil] at owned

theorem Moved.pending (moved : Moved server msg pc label after task events) {handle : ClientHandle}
    (waits : task.pc.pending = some handle) :
    pc.pending = some handle ∨ ∃ maxfds readSet, pc.position = some (maxfds, readSet, handle) := by
  cases moved with
  | finds =>
      cases waits
      exact .inr ⟨_, _, rfl⟩
  | recvCloses | deletes => exact .inl waits
  | _ => cases waits

end Preserve

end TcpServer

namespace System

open TcpServer

/-- The server is started once and not finished: the run is one of a single thread. -/
def Living (taken : Taken System Label Event) : Prop :=
  match taken.label with
  | .start _ _ => taken.before.task = none
  | .finish => False
  | _ => True

instance (taken : Taken System Label Event) : Decidable (Living taken) :=
  match taken with
  | ⟨before, .start _ _, _⟩ => inferInstanceAs (Decidable (before.task = none))
  | ⟨_, .finish, _⟩ => isFalse id
  | ⟨_, .serverTask, _⟩ | ⟨_, .select _ _, _⟩ | ⟨_, .recv _ _, _⟩ | ⟨_, .accept _ _ _, _⟩ | ⟨_, .returns, _⟩
  | ⟨_, .call _ _, _⟩ | ⟨_, .stop, _⟩ | ⟨_, .opens _, _⟩ | ⟨_, .closes _, _⟩ => isTrue trivial

theorem living_cases {before after : System} {label : Label} {events : List Event}
    (living : Living ⟨before, label, events⟩) (stepped : step before label = some (after, events)) :
    (∃ task server next, before.task = some task ∧
      Moved before.server task.msg task.pc label server next events ∧
      after = { before with server, task := some next }) ∨
    (∀ past, Same past (past ++ events)) ∧ ((∃ handle,
        after = { before with server := (before.server.deleteClient handle).1 }) ∨
      after.server.clients = before.server.clients ∧
        before.server.kernel.Others after.server.kernel ∧ after.current.pc = before.current.pc ∧
        (after.task = none → before.task = none) ∧
        (after.server.fds = before.server.fds ∨ before.task = none)) := by
  cases step_changed stepped with
  | moves running moved => exact .inl ⟨_, _, _, running, moved, rfl⟩
  | @calls caller call =>
      refine .inr ⟨Same.returned _, ?_⟩
      cases call with
      | deleteClient handle => exact .inl ⟨handle, rfl⟩
      | sendBcast | sendClientMessage | getClientInfo => exact .inr ⟨rfl, .refl _, rfl, id, .inl rfl⟩
  | starts unused valid success idle =>
      refine .inr ⟨Same.started _, .inr ⟨rfl, .socket (Kernel.not_open unused), ?_, nofun, .inr idle⟩⟩
      simp [current, idle]
  | terminates busy => exact absurd living busy
  | startFails opened =>
      refine .inr ⟨Same.started _, .inr ⟨rfl, ?_, rfl, id, .inl rfl⟩⟩
      rcases opened with rfl | ⟨socket, unused, rfl⟩
      · exact .refl _
      · exact .socket (Kernel.not_open unused)
  | stops => exact .inr ⟨Same.append_nil, .inr ⟨rfl, .refl _, rfl, id, .inl rfl⟩⟩
  | finishes => exact living.elim
  | opens unused =>
      exact .inr ⟨Same.append_nil, .inr ⟨rfl, .opens (Kernel.not_open unused), rfl, id, .inl rfl⟩⟩
  | closes belongs => exact .inr ⟨Same.append_nil, .inr ⟨rfl, .closes belongs, rfl, id, .inl rfl⟩⟩

/-- Only connected clients are in the table, and those that have failed are gone. -/
structure Cleaned (past : List Event) (server : TcpServer) : Prop where
  connected : ∀ handle client, server.clients.lookup handle = some client → client.isConnected = true
  closed : ∀ connection, Failed connection past → Closed connection past server

def Followed (past : List Event) (system : System) : Prop :=
  TcpServer.Followed past system.server system.current.pc ∧
    (system.task = none → ∀ connection, ¬ Failed connection past)

theorem boot_followed (descriptors : List SOCKET) : Followed [] (boot descriptors) := by
  have unconnected := Kernel.initial_unconnected descriptors
  have unfailed : ∀ connection, ¬ Failed connection [] := by
    rintro connection ⟨_, _, _, member, -⟩
    cases member
  have uncounted : ∀ {connection}, ¬ (Failed connection [] ∨ connection ∈ reports []) := by
    rintro _ (failed | reported)
    · exact unfailed _ failed
    · cases reported
  have traced : Traced [] (boot descriptors).server.kernel :=
    ⟨fun found => absurd found (unconnected _ _), nofun, nofun, nofun, fun known => absurd known uncounted⟩
  refine ⟨⟨⟨traced, .of_empty rfl unconnected, nofun⟩, nofun, ?_, ?_⟩, fun _ => unfailed⟩
  · simp [boot, TcpServer.init]
  · exact fun failed => absurd failed (unfailed _)

section Step
variable {before after : System} {label : Label} {events past : List Event}

theorem step_located (located : Located past before.server before.current.pc)
    (living : Living ⟨before, label, events⟩) (stepped : step before label = some (after, events)) :
    Located (past ++ events) after.server after.current.pc := by
  rcases living_cases living stepped with ⟨task, server, next, running, moved, rfl⟩ |
    ⟨same, ⟨handle, rfl⟩ | ⟨clients, others, pc, -, -⟩⟩
  · rw [current_of_task running] at located
    exact moved.located located
  · have still := located.deleteClient handle
    exact ⟨still.toTraced.of_same (same past) id (le_refl _), still.table, still.deleted⟩
  · rw [pc]
    have fewer := fun {fd connection} => (others.connection_iff fd connection).mp
    refine ⟨located.toTraced.of_same (same past) fewer others.counted.ge, ?_, ?_⟩
    · exact located.table.of_others clients others
    · rw [clients]
      exact located.deleted

theorem step_followed (followed : Followed past before) (sound : ∀ event ∈ events, ¬ event.Breaks)
    (living : Living ⟨before, label, events⟩) (stepped : step before label = some (after, events)) :
    Followed (past ++ events) after := by
  obtain ⟨followed, idle⟩ := followed
  have located := step_located followed.toLocated living stepped
  rcases living_cases living stepped with ⟨task, server, next, running, moved, rfl⟩ |
    ⟨same, ⟨handle, rfl⟩ | ⟨clients, others, pc, threads, fds⟩⟩
  · rw [current_of_task running] at followed
    exact ⟨moved.followed followed sound, nofun⟩
  · have still := followed.deleteClient handle
    have failures := fun {connection} => ((same past).failures connection).mp
    refine ⟨⟨located, ?_, still.connected, ?_⟩, fun none connection failed => ?_⟩
    · intro fd connection enters owned failed
      exact still.entering enters (((same past).owners _).symm.trans owned) (failures failed)
    · exact fun failed => (still.fate (failures failed)).of_same (same past) rfl rfl (.refl _)
    · exact idle none connection (failures failed)
  · have failures := fun {connection} => ((same past).failures connection).mp
    refine ⟨⟨located, ?_, ?_, ?_⟩, fun none connection failed => ?_⟩
    · intro fd connection enters owned failed
      exact followed.entering (pc ▸ enters) (((same past).owners _).symm.trans owned) (failures failed)
    · rw [clients, pc]
      exact followed.connected
    · intro connection failed
      have earlier := failures failed
      -- The watch set is replaced at the start only, before any client has failed.
      rw [pc]
      exact (followed.fate earlier).of_same (same past) clients
        (fds.resolve_right fun none => idle none _ earlier) others
    · exact idle (threads none) connection (failures failed)

theorem Followed.cleaned {system : System} (followed : Followed past system) (top : system.AtLoop) :
    Cleaned past system.server := by
  obtain ⟨msg, running⟩ := top.task
  have still := followed.1
  rw [current_of_task running] at still
  constructor
  · exact fun handle client found => still.connected_elsewhere nofun found
  · exact fun connection failed => ((still.fate failed).settled_of_idle rfl).1

/-- A connection on which `Recv` has failed has not been reported, and the pass is beyond the
descriptor it has been accepted under. -/
structure Missed (fd : SOCKET) (connection : ℕ) (past : List Event) (system : System) : Prop where
  located : Located past system.server system.current.pc
  failed : Failed connection past
  unreported : connection ∉ reports past
  own : ∀ {handle}, owner past handle = some connection → handle = fd
  place : ∃ maxfds readSet due, system.current.pc.position = some (maxfds, readSet, due) ∧ fd < due
  ahead : ∀ {handle}, system.current.pc.pending = some handle → fd < handle

theorem Missed.not_atLoop {fd : SOCKET} {connection : ℕ} {system : System}
    (missed : Missed fd connection past system) : ¬ system.AtLoop := by
  intro top
  obtain ⟨msg, running⟩ := top.task
  obtain ⟨maxfds, readSet, due, position, -⟩ := missed.place
  rw [current_of_task running] at position
  cases position

theorem Missed.not_cleaned {server : TcpServer} {connection : ℕ} (failed : Failed connection past)
    (unreported : connection ∉ reports past) : ¬ Cleaned past server := by
  intro cleaned
  have once := (cleaned.closed connection failed).once
  rw [List.count_eq_zero_of_not_mem unreported] at once
  cases once

theorem step_missed {fd : SOCKET} {connection : ℕ} (missed : Missed fd connection past before)
    (living : Living ⟨before, label, events⟩) (stepped : step before label = some (after, events)) :
    Missed fd connection (past ++ events) after ∨
      after.AtLoop ∧ ¬ Cleaned (past ++ events) after.server := by
  -- Until the pass is over the connection stays unreported.
  have located := step_located missed.located living stepped
  have failed : Failed connection (past ++ events) := by
    obtain ⟨descriptor, number, data, member, below⟩ := missed.failed
    exact ⟨descriptor, number, data, List.mem_append_left _ member, below⟩
  obtain ⟨maxfds, readSet, due, position, beyond⟩ := missed.place
  rcases living_cases living stepped with ⟨task, server, next, running, moved, rfl⟩ | ⟨same, elsewhere⟩
  · have ahead : ∀ {handle}, before.current.pc.pending = some handle → fd < handle := missed.ahead
    have counted := missed.located.counted (.inl missed.failed)
    rw [current_of_task running] at position ahead
    have unreported : connection ∉ reports (past ++ events) := by
      rcases moved.reported past with same | ⟨client, waits, same⟩
      · rw [same]
        exact missed.unreported
      · rw [same, List.mem_append, Option.mem_toList]
        rintro (earlier | own)
        · exact missed.unreported earlier
        · exact absurd (missed.own own) (ahead waits).ne'
    have waiting : ∀ {handle}, next.pc.pending = some handle → fd < handle := by
      intro handle waits
      rcases moved.pending waits with earlier | ⟨_, _, here⟩
      · exact ahead earlier
      · rw [position] at here
        cases here
        exact beyond
    have own : ∀ {handle}, owner (past ++ events) handle = some connection → handle = fd :=
      fun owned => missed.own (moved.owned counted owned)
    rcases moved.position position with ⟨atLoop, -, -⟩ | ⟨still, -⟩ | ⟨further, -⟩
    · exact .inr ⟨congrArg some atLoop, Missed.not_cleaned failed unreported⟩
    · exact .inl ⟨located, failed, unreported, own, ⟨_, _, _, still, beyond⟩, waiting⟩
    · exact .inl ⟨located, failed, unreported, own, ⟨_, _, _, further, beyond.trans (Int.lt_succ due)⟩,
        waiting⟩
  · have pc : after.current.pc = before.current.pc := by
      rcases elsewhere with ⟨handle, rfl⟩ | ⟨-, -, pc, -, -⟩
      · rfl
      · exact pc
    refine .inl ⟨located, failed, (same past).reports ▸ missed.unreported, ?_, ?_, ?_⟩
    · exact fun owned => missed.own (((same past).owners _).symm.trans owned)
    · exact pc ▸ missed.place
    · exact pc ▸ missed.ahead

theorem step_breaks (located : Located past before.server before.current.pc)
    (living : Living ⟨before, label, events⟩) (stepped : step before label = some (after, events))
    {event : Event} (emitted : event ∈ events) (breaks : event.Breaks) :
    ∃ fd connection, Missed fd connection (past ++ events) after := by
  have still := step_located located living stepped
  rcases living_cases living stepped with ⟨task, server, next, running, moved, rfl⟩ | ⟨same, -⟩
  · rw [current_of_task running] at located
    obtain ⟨pass, connection, number, atRecv, object, negative, rfl, scan⟩ := moved.breaks emitted breaks
    have unreported := located.unreported object
    have counted := before.server.kernel.counted _ _ object
    refine ⟨pass.fd, connection, still, ?_, ?_, ?_, ⟨pass.maxfds, pass.readSet, pass.fd + 1, ?_, Int.lt_succ _⟩, ?_⟩
    · exact ⟨_, _, _, List.mem_append_right _ (List.mem_singleton_self _), negative.trans Int.zero_lt_one⟩
    · rw [reports_recv]
      exact unreported
    · exact fun owned => located.sole (moved.owned counted owned) (located.owned object)
    · exact congrArg Pc.position scan
    · intro handle waits
      have idle : (Pc.scan pass.next).pending = some handle := scan ▸ waits
      cases idle
  · obtain ⟨fd, connection, number, data, rfl, negative⟩ := breaks.isRecv
    have failed : Failed connection ([] ++ events) :=
      ⟨fd, number, data, emitted, negative.trans Int.zero_lt_one⟩
    obtain ⟨_, _, _, member, -⟩ := ((same []).failures connection).mp failed
    cases member

/-- Whatever comes after the failure, the next time the thread is at the top of its loop something
is wrong. -/
theorem run_missed {start final : System} {fd : SOCKET} {connection : ℕ}
    {steps : List (Taken System Label Event)} (run : Run step start steps final)
    (living : ∀ taken ∈ steps, Living taken) (missed : Missed fd connection past start) :
    Missed fd connection (past ++ trace steps) final ∨ ∃ first rest middle, steps = first ++ rest ∧
      Run step start first middle ∧ middle.AtLoop ∧ ¬ Cleaned (past ++ trace first) middle.server := by
  induction run with
  | nil =>
      rw [trace_nil, List.append_nil]
      exact .inl missed
  | @snoc steps before after label events run stepped ih =>
      simp only [List.mem_append, List.mem_singleton] at living
      have whole : past ++ trace (steps ++ [⟨before, label, events⟩]) = past ++ trace steps ++ events := by
        simp
      rw [whole]
      rcases ih (fun taken member => living taken (.inl member)) with still |
        ⟨first, rest, middle, rfl, reached, top, wrong⟩
      · refine (step_missed still (living _ (.inr rfl)) stepped).imp_right fun ⟨top, wrong⟩ => ?_
        exact ⟨_, [], after, by simp, .snoc run stepped, top, whole ▸ wrong⟩
      · exact .inr ⟨first, rest ++ [⟨before, label, events⟩], middle, by simp, reached, top, wrong⟩

end Step

/-- The table holds connected clients only, and those that have failed have been closed, removed and
reported, whenever the thread is at the top of its loop, exactly if no `Recv` on a connection has
returned an error. -/
theorem loop_cleaned_iff {descriptors : List SOCKET} {steps : List (Taken System Label Event)}
    {final : System} (run : Run step (boot descriptors) steps final)
    (living : ∀ taken ∈ steps, Living taken) (top : final.AtLoop) :
    (∀ first rest middle, steps = first ++ rest → Run step (boot descriptors) first middle →
        middle.AtLoop → Cleaned (trace first) middle.server) ↔
      ∀ event ∈ trace steps, ¬ event.Breaks := by
  constructor
  · intro cleaned event emitted breaks
    obtain ⟨taken, member, here⟩ := List.mem_flatMap.mp emitted
    obtain ⟨first, rest, after, rfl, before, stepped, later⟩ := run.reached member
    simp only [List.mem_append, List.mem_cons] at living
    have located : Located (trace first) taken.before.server taken.before.current.pc :=
      before.history Living (fun past system => Located past system.server system.current.pc)
        (boot_followed descriptors).1.toLocated (fun _ _ _ _ _ => step_located)
        fun taken earlier => living taken (.inl earlier)
    obtain ⟨fd, connection, missed⟩ :=
      step_breaks located (living taken (.inr (.inl rfl))) stepped here breaks
    have afterwards : ∀ taken ∈ rest, Living taken := fun taken after => living taken (.inr (.inr after))
    rcases run_missed later afterwards missed with still | ⟨front, back, middle, rfl, reached, atTop, wrong⟩
    · exact still.not_atLoop top
    · have upTo := (before.snoc stepped).append reached
      have wholly := cleaned (first ++ [taken] ++ front) back middle (by simp) upTo atTop
      rw [trace_append, trace_append, trace_singleton] at wholly
      exact wrong wholly
  · rintro sound first rest middle rfl reached atTop
    have followed : Followed (trace first) middle :=
      reached.history (fun taken => Living taken ∧ ∀ event ∈ taken.events, ¬ event.Breaks) Followed
        (boot_followed descriptors)
        (fun _ _ _ _ _ followed permitted => step_followed followed permitted.2 permitted.1)
        fun taken member => ⟨living taken (by simp [member]), fun event emitted =>
          sound event (List.mem_flatMap.mpr ⟨taken, by simp [member], emitted⟩)⟩
    exact followed.cleaned atTop

/-- A client closes its connection, and the thread has cleaned up in the same pass. -/
theorem loop_cleaned_iff_closed : ∃ steps final, Run step (boot [0, 1, 2]) steps final ∧
    Failed 0 (trace steps) ∧ Cleaned (trace steps) final.server := by
  have computed : (exec step (boot [0, 1, 2]) (.start (listening 3) [] :: acceptPass 4 0 ++ recvPass ++
      [.recv 0 [], .serverTask, .serverTask, .returns, .serverTask])).any (fun (steps, final) =>
        decide (∀ taken ∈ steps, Living taken) && decide final.AtLoop &&
          decide (∀ event ∈ trace steps, ¬ event.Breaks) &&
          decide (.recv 4 (some (.connection 0)) 0 [] ∈ trace steps)) = true := by
    decide +kernel
  obtain ⟨steps, final, run, checked⟩ := exists_run_of_exec computed
  simp only [Bool.and_eq_true, decide_eq_true_eq] at checked
  obtain ⟨⟨⟨living, top⟩, sound⟩, closed⟩ := checked
  exact ⟨steps, final, run, ⟨4, 0, [], closed, by decide⟩,
    (loop_cleaned_iff run living top).mpr sound steps [] final (by simp) run top⟩

/-- `Recv` fails, and at the next top of the loop the client is still in the table. -/
theorem failed_remains : ∃ steps final, Run step (boot [0, 1, 2]) steps final ∧
    (∀ taken ∈ steps, Living taken) ∧ final.AtLoop ∧ ¬ Cleaned (trace steps) final.server := by
  have computed : (exec step (boot [0, 1, 2]) (.start (listening 3) [] :: acceptPass 4 0 ++ recvPass ++
      [.recv (-1) [], .serverTask])).any (fun (steps, final) =>
        decide (∀ taken ∈ steps, Living taken) && decide final.AtLoop &&
          (final.server.clients.lookup 4).any fun client => !client.isConnected) = true := by
    decide +kernel
  obtain ⟨steps, final, run, checked⟩ := exists_run_of_exec computed
  simp only [Bool.and_eq_true, decide_eq_true_eq, Option.any_eq_true, Bool.not_eq_true'] at checked
  obtain ⟨⟨living, top⟩, client, found, disconnected⟩ := checked
  refine ⟨steps, final, run, living, top, fun cleaned => ?_⟩
  rw [cleaned.connected 4 client found] at disconnected
  cases disconnected

end System

end ZmqPlayground
