import ZmqPlayground.Common.ClientTable
import ZmqPlayground.Library.Sessions

/-! The callbacks a server makes for a handle, as sessions of one connection each.

A handle is a descriptor, which the kernel gives to one connection after another. The
server thread keeps the callbacks of two connections apart, and passes on what it
has received, as long as the application leaves the removal of clients to it.
-/

set_option autoImplicit false

namespace ZmqPlayground

open Library
open Library.Runs
open Library.Sessions

namespace TcpServer

def Callback.act (handle : ClientHandle) : Callback → Option (Act ℕ Byte)
  | .onClientConnect client => if client = handle then some .opens else none
  | .onReceiveClientData client msg => if client = handle then some (.passes msg) else none
  | .onClientDisconnect client _ => if client = handle then some .closes else none

def Event.act (handle : ClientHandle) : Event → Option (Act ℕ Byte)
  | .accept _ clientfd connection => if clientfd = handle then some (.accepts connection) else none
  | .callback called => called.act handle
  | _ => none

def acts (handle : ClientHandle) (events : List Event) : List (Act ℕ Byte) :=
  events.filterMap (Event.act handle)

def Event.received (connection : ℕ) : Event → List Byte
  | .recv _ (some (.connection id)) _ data => if id = connection then data else []
  | _ => []

def received (connection : ℕ) (events : List Event) : List Byte :=
  events.flatMap (Event.received connection)

theorem acts_snoc (handle : ClientHandle) (past : List Event) (event : Event) :
    acts handle (past ++ [event]) = acts handle past ++ (event.act handle).toList :=
  filterMap_snoc _ _ _

theorem received_snoc (connection : ℕ) (past : List Event) (event : Event) :
    received connection (past ++ [event]) = received connection past ++ event.received connection := by
  simp [received]

theorem received_recv_of_ne {connection : ℕ} {object : Option Object} {data : List Byte}
    (other : object ≠ some (.connection connection) ∨ data = []) (past : List Event) (fd : SOCKET)
    (numOfBytesReceived : Int) :
    received connection (past ++ [.recv fd object numOfBytesReceived data]) =
      received connection past := by
  rw [received_snoc]
  unfold Event.received
  split
  · rename_i same
    injection same with _ same _ none
    subst same none
    split
    · rename_i own
      rw [other.resolve_left fun different => different (by rw [own]), List.append_nil]
    · exact List.append_nil _
  · exact List.append_nil _

def Notice.client : Notice → ClientHandle
  | .clientMsg client _ | .disconnected client | .clientConnect client => client

def Notice.act (msg : List Byte) : Notice → Act ℕ Byte
  | .clientMsg _ msgSize => .passes (msg.take msgSize)
  | .disconnected _ => .closes
  | .clientConnect _ => .opens

theorem act_notice (handle : ClientHandle) (msg : List Byte) (notice : Notice) :
    (Event.callback (notice.callback msg)).act handle =
      if notice.client = handle then some (notice.act msg) else none := by
  cases notice <;> rfl

def Pc.subject : Pc → Option ClientHandle
  | .recv pass | .delete pass => some pass.fd
  | .emplace _ clientfd _ _ | .watch _ clientfd => some clientfd
  | .publish _ notice => some notice.client
  | _ => none

/-- An accepted connection the application has not been told of. -/
def Pc.unannounced : Pc → Option ClientHandle
  | .emplace _ clientfd _ _ | .watch _ clientfd | .publish _ (.clientConnect clientfd) => some clientfd
  | _ => none

/-- A deleted client the application still takes for connected. -/
def Pc.leaving : Pc → Option ClientHandle
  | .publish _ (.disconnected client) => some client
  | _ => none

/-- What has been received from a client and not been passed on. -/
def Pc.undelivered (handle : ClientHandle) (msg : List Byte) : Pc → List Byte
  | .publish _ (.clientMsg client msgSize) => if client = handle then msg.take msgSize else []
  | _ => []

/-- Where a handle stands between two connections, with what its log says there. -/
inductive Stage (handle : ClientHandle) (past : List Event) (server : TcpServer) (pc : Pc)
    (msg : List Byte) : Prop where
  | absent (unregistered : handle ∉ server.clients) (idle : pc.subject ≠ some handle)
      (shut : (log (acts handle past)).isOpen = false)
  | arriving {connection : ℕ} (arrives : pc.unannounced = some handle)
      (entered : pc.arriving = some handle ∨ handle ∈ server.clients)
      (object : server.kernel.object handle = some (.connection connection))
      (accepted : (log (acts handle past)).accepted = some connection)
      (silent : received connection past = []) (shut : (log (acts handle past)).isOpen = false)
  | present {connection : ℕ} {passed : List Byte} {older : List (Session ℕ Byte)}
      (member : handle ∈ server.clients) (announced : pc.unannounced ≠ some handle)
      (stays : pc.leaving ≠ some handle)
      (object : server.kernel.object handle = some (.connection connection))
      (current : (log (acts handle past)).sessions = ⟨some connection, passed, false⟩ :: older)
      (delivered : passed ++ pc.undelivered handle msg = received connection past)
  | leaving {connection : ℕ} {passed : List Byte} {older : List (Session ℕ Byte)}
      (leaves : pc.leaving = some handle) (unregistered : handle ∉ server.clients)
      (gone : ∀ fd, server.kernel.Gone fd connection)
      (current : (log (acts handle past)).sessions = ⟨some connection, passed, false⟩ :: older)
      (delivered : passed = received connection past)

/-- The callbacks so far are those of sessions, and every closed session has had all the bytes of
its connection. -/
structure Sound (handle : ClientHandle) (past : List Event) : Prop where
  regular : Regular (acts handle past)
  whole : ∀ session ∈ (log (acts handle past)).sessions, session.closed = true →
    ∃ connection, session.connection = some connection ∧ session.passed = received connection past

/-- The thread works on connections that are counted, and no closed session is of an open one. -/
structure Live (handle : ClientHandle) (past : List Event) (server : TcpServer) (pc : Pc)
    (msg : List Byte) : Prop where
  table : Registered server pc.arriving
  retired : ∀ session ∈ (log (acts handle past)).sessions, session.closed = true →
    ∀ connection, session.connection = some connection → ∀ fd, server.kernel.Gone fd connection
  counted : ∀ connection, server.kernel.connections ≤ connection → received connection past = []
  stage : Stage handle past server pc msg

/-- The server does nothing to a client and its connection. -/
structure Spares (handle : ClientHandle) (server after : TcpServer) : Prop where
  members : handle ∈ after.clients ↔ handle ∈ server.clients
  object : ∀ {id}, server.kernel.object handle = some (.connection id) →
    after.kernel.object handle = some (.connection id)
  later : server.kernel.Later after.kernel

structure Pc.Passes (handle : ClientHandle) (msg buffer : List Byte) (pc later : Pc) : Prop where
  unannounced : later.unannounced = some handle ↔ pc.unannounced = some handle
  arriving : pc.arriving = some handle → later.arriving = some handle
  leaving : later.leaving = some handle ↔ pc.leaving = some handle
  undelivered : later.undelivered handle buffer = pc.undelivered handle msg

section Preserve
variable {handle : ClientHandle} {past now : List Event} {server after : TcpServer} {pc later : Pc}
  {msg buffer : List Byte}

theorem Spares.refl (handle : ClientHandle) (server : TcpServer) : Spares handle server server :=
  ⟨Iff.rfl, fun found => found, .refl _⟩

theorem Spares.markDisconnected (handle fd : SOCKET) (server : TcpServer) :
    Spares handle server (server.markDisconnected fd) :=
  ⟨Table.mem_modify, fun found => found, .refl _⟩

theorem Spares.of_others (clients : after.clients = server.clients)
    (others : server.kernel.Others after.kernel) : Spares handle server after :=
  ⟨by rw [clients], (others.connection_iff _ _).mpr, .others others⟩

theorem Spares.deleteClient {arriving : Option SOCKET} (table : Registered server arriving)
    {fd : SOCKET} (different : handle ≠ fd) : Spares handle server (server.deleteClient fd).1 := by
  by_cases member : fd ∈ server.clients
  · rw [table.deleteClient_eq member]
    refine ⟨?_, fun found => ?_, .close _ _⟩
    · rw [AList.mem_erase]
      exact and_iff_right different
    · simpa [different] using found
  · rw [deleteClient_of_not_mem member]
    exact .refl _ _

theorem Spares.accept {clientfd : SOCKET} (unused : ¬ server.kernel.IsOpen clientfd) :
    Spares handle server { server with kernel := server.kernel.accept clientfd } :=
  ⟨Iff.rfl, Kernel.object_accept_of_open unused, .accept _ _⟩

theorem Spares.addClient {clientfd : SOCKET} (different : handle ≠ clientfd) (ip : Str)
    (port : UInt16) : Spares handle server (server.addClient clientfd ip port) := by
  refine ⟨?_, fun found => found, .refl _⟩
  rw [TcpServer.addClient, Table.emplace]
  split
  · exact Iff.rfl
  · rw [AList.mem_insert]
    exact or_iff_right different

theorem Stage.of_spares (stage : Stage handle past server pc msg)
    (sameActs : acts handle now = acts handle past)
    (sameReceived : ∀ connection, server.kernel.object handle = some (.connection connection) ∨
      (∀ fd, server.kernel.Gone fd connection) → received connection now = received connection past)
    (spares : Spares handle server after) (passes : Pc.Passes handle msg buffer pc later)
    (subject : handle ∉ server.clients → later.subject = some handle → pc.subject = some handle) :
    Stage handle now after later buffer := by
  cases stage with
  | absent unregistered idle shut =>
      exact .absent (mt spares.members.mp unregistered) (mt (subject unregistered) idle)
        (sameActs ▸ shut)
  | arriving arrives entered object accepted silent shut =>
      exact .arriving (passes.unannounced.mpr arrives)
        (entered.imp passes.arriving spares.members.mpr) (spares.object object)
        (sameActs ▸ accepted) ((sameReceived _ (.inl object)).trans silent) (sameActs ▸ shut)
  | present member announced stays object current delivered =>
      exact .present (spares.members.mpr member) (mt passes.unannounced.mp announced)
        (mt passes.leaving.mp stays) (spares.object object) (sameActs ▸ current)
        (by rw [passes.undelivered, delivered, sameReceived _ (.inl object)])
  | leaving leaves unregistered gone current delivered =>
      exact .leaving (passes.leaving.mpr leaves) (mt spares.members.mp unregistered)
        (fun fd => spares.later.gone (gone fd)) (sameActs ▸ current)
        (delivered.trans (sameReceived _ (.inr gone)).symm)

theorem Stage.quietly (stage : Stage handle past server pc msg) (spares : Spares handle server after)
    (passes : Pc.Passes handle msg buffer pc later)
    (subject : handle ∉ server.clients → later.subject = some handle → pc.subject = some handle) :
    Stage handle (past ++ []) after later buffer := by
  rw [List.append_nil]
  exact stage.of_spares rfl (fun _ _ => rfl) spares passes subject

theorem Stage.receives {pass : Pass} {data : List Byte}
    (stage : Stage handle past server (.recv pass) msg) :
    Stage handle (past ++ [.recv pass.fd (server.kernel.object pass.fd) data.length data]) server
      (.publish pass (.clientMsg pass.fd data.length)) (data ++ msg.drop data.length) := by
  -- The bytes of one client are no other's.
  have sameActs : acts handle (past ++ [.recv pass.fd (server.kernel.object pass.fd) data.length data])
      = acts handle past :=
    (acts_snoc _ _ _).trans (List.append_nil _)
  by_cases own : handle = pass.fd
  · -- What is in the buffer now has been received and not yet passed on.
    subst own
    cases stage with
    | absent unregistered idle shut => exact absurd rfl idle
    | arriving arrives => cases arrives
    | leaving leaves => cases leaves
    | @present connection passed older member announced stays object current delivered =>
        refine .present member nofun nofun object (sameActs ▸ current) ?_
        simp only [Pc.undelivered, List.append_nil] at delivered
        rw [received_snoc, object, ← delivered]
        simp [Pc.undelivered, Event.received]
  · refine stage.of_spares sameActs (fun connection which => ?_) (.refl _ _)
      ⟨by simp [Pc.unannounced], nofun, Iff.rfl, ?_⟩ fun _ same => same
    · refine received_recv_of_ne (.inl fun found => ?_) _ _ _
      -- A connection belongs to one descriptor only, so this was no byte of the client's own.
      rcases which with object | gone
      · exact own (server.kernel.unique _ _ _ object found)
      · exact (gone pass.fd).1 found
    · simp [Pc.undelivered, Ne.symm own]

theorem Stage.deletes {pass : Pass} {arriving : Option SOCKET} (table : Registered server arriving)
    (stage : Stage handle past server (.delete pass) msg) :
    Stage handle past (server.deleteClient pass.fd).1 (.publish pass (.disconnected pass.fd)) msg := by
  by_cases own : handle = pass.fd
  · subst own
    cases stage with
    | absent unregistered idle shut => exact absurd rfl idle
    | arriving arrives => cases arrives
    | leaving leaves => cases leaves
    | @present connection passed older member announced stays object current delivered =>
        rw [table.deleteClient_eq member]
        refine .leaving rfl (by simp) (fun fd => ⟨?_, ?_⟩) current (by simpa [Pc.undelivered] using delivered)
        · rw [Kernel.object_close]
          split
          · simp
          · rename_i different
            exact fun found => different (server.kernel.unique _ _ _ found object)
        · exact server.kernel.counted _ _ object
  · refine stage.of_spares rfl (fun _ _ => rfl) (.deleteClient table own)
      ⟨by simp [Pc.unannounced], nofun, by simpa [Pc.leaving] using Ne.symm own, rfl⟩ fun _ same => same

theorem Stage.accepts {pass : Pass} {clientfd : SOCKET} (ip : Str) (port : UInt16)
    (unused : ¬ server.kernel.IsOpen clientfd)
    (silent : received server.kernel.connections past = [])
    (stage : Stage handle past server (.accept pass) msg) :
    Stage handle (past ++ [.accept pass.fd clientfd server.kernel.connections])
      { server with kernel := server.kernel.accept clientfd } (.emplace pass clientfd ip port) msg := by
  have sameReceived : ∀ connection, received connection
      (past ++ [.accept pass.fd clientfd server.kernel.connections]) = received connection past :=
    fun connection => (received_snoc _ _ _).trans (List.append_nil _)
  by_cases own : handle = clientfd
  · subst own
    -- The descriptor was free, so the handle is absent and a session of it begins.
    have closed := Kernel.not_open unused
    have added : acts handle (past ++ [.accept pass.fd handle server.kernel.connections]) =
        acts handle past ++ [.accepts server.kernel.connections] := by
      rw [acts_snoc, Event.act, if_pos rfl, Option.toList_some]
    cases stage with
    | absent unregistered idle shut =>
        refine .arriving rfl (.inl rfl) (by simp) ?_ ((sameReceived _).trans silent) ?_
        · rw [added, log_snoc]
          rfl
        · rw [added, log_snoc]
          exact shut
    | arriving arrives => cases arrives
    | present _ _ _ object => rw [closed] at object; cases object
    | leaving leaves => cases leaves
  · refine stage.of_spares ?_ (fun connection _ => sameReceived connection) (.accept unused)
      ⟨?_, nofun, Iff.rfl, rfl⟩ ?_
    · rw [acts_snoc, Event.act, if_neg (Ne.symm own)]
      exact List.append_nil _
    · simp [Pc.unannounced, Ne.symm own]
    · intro _ same
      exact absurd (Option.some.inj same).symm own

theorem Stage.emplaces {pass : Pass} {clientfd : SOCKET} {ip : Str} {port : UInt16}
    (stage : Stage handle past server (.emplace pass clientfd ip port) msg) :
    Stage handle past (server.addClient clientfd ip port) (.watch pass clientfd) msg := by
  by_cases own : handle = clientfd
  · subst own
    cases stage with
    | absent unregistered idle shut => exact absurd rfl idle
    -- `emplace` leaves an entry that is there already, and the handle is in the table in either case.
    | arriving arrives entered object accepted silent shut =>
        refine .arriving rfl (.inr ?_) object accepted silent shut
        rw [TcpServer.addClient, Table.emplace]
        split
        · assumption
        · exact (AList.mem_insert _).mpr (.inl rfl)
    | present _ announced => exact absurd rfl announced
    | leaving leaves => cases leaves
  · refine stage.of_spares rfl (fun _ _ => rfl) (.addClient own ip port) ⟨Iff.rfl, ?_, Iff.rfl, rfl⟩
      fun _ same => same
    intro same
    exact absurd (Option.some.inj same).symm own

theorem Stage.publishes {pass : Pass} {notice : Notice}
    (stage : Stage handle past server (.publish pass notice) msg) :
    Stage handle (past ++ [.callback (notice.callback msg)]) server (.callback pass) msg := by
  have sameReceived : ∀ connection, received connection (past ++ [.callback (notice.callback msg)]) =
      received connection past :=
    fun connection => (received_snoc _ _ _).trans (List.append_nil _)
  have added := acts_snoc handle past (.callback (notice.callback msg))
  rw [act_notice] at added
  -- The client's own notice is the act that its stage has been waiting for; another's changes nothing.
  by_cases own : notice.client = handle
  · rw [if_pos own, Option.toList_some] at added
    cases notice with
    | clientMsg client msgSize =>
        obtain rfl : client = handle := own
        cases stage with
        | absent unregistered idle shut => exact absurd rfl idle
        | arriving arrives => cases arrives
        | leaving leaves => cases leaves
        | @present connection passed older member announced stays object current delivered =>
            have extended : (log (acts client (past ++
                [.callback (Notice.callback msg (.clientMsg client msgSize))]))).sessions =
                  ⟨some connection, passed ++ msg.take msgSize, false⟩ :: older := by
              rw [added, log_snoc]
              simp only [Notice.act, Log.record, current]
            refine .present member (by rintro ⟨⟩) (by rintro ⟨⟩) object extended ?_
            rw [sameReceived, ← delivered]
            simp [Pc.undelivered]
    | disconnected client =>
        obtain rfl : client = handle := own
        cases stage with
        | absent unregistered idle shut => exact absurd rfl idle
        | arriving arrives => cases arrives
        | @leaving connection passed older leaves unregistered gone current delivered =>
            refine .absent unregistered (by rintro ⟨⟩) ?_
            rw [added, log_snoc]
            simp only [Notice.act, Log.record, current, Log.isOpen]
        | present _ _ stays => exact absurd rfl stays
    | clientConnect client =>
        obtain rfl : client = handle := own
        cases stage with
        | absent unregistered idle shut => exact absurd rfl idle
        | @arriving connection arrives entered object accepted silent shut =>
            have opened : (log (acts client (past ++
                [.callback (Notice.callback msg (.clientConnect client))]))).sessions =
                  ⟨some connection, [], false⟩ :: (log (acts client past)).sessions := by
              rw [added, log_snoc, Notice.act, Log.record, accepted]
            refine .present (entered.resolve_left (by rintro ⟨⟩)) (by rintro ⟨⟩) (by rintro ⟨⟩) object
              opened ?_
            rw [sameReceived, silent]
            rfl
        | present _ announced => exact absurd rfl announced
        | leaving leaves => cases leaves
  · rw [if_neg own, Option.toList_none, List.append_nil] at added
    refine stage.of_spares added (fun connection _ => sameReceived connection) (.refl _ _) ?_
      (by rintro _ ⟨⟩)
    -- The notice is about another client.
    cases notice with
    | clientMsg client msgSize =>
        exact ⟨Iff.rfl, by rintro ⟨⟩, Iff.rfl, (if_neg own).symm⟩
    | disconnected client =>
        exact ⟨Iff.rfl, by rintro ⟨⟩, by simpa [Pc.leaving, Notice.client] using own, rfl⟩
    | clientConnect client =>
        exact ⟨by simpa [Pc.unannounced, Notice.client] using own, by rintro ⟨⟩, Iff.rfl, rfl⟩

theorem Moved.stage {label : Label} {task : Task} {emitted : List Event}
    (moved : Moved server msg pc label after task emitted) (live : Live handle past server pc msg) :
    Stage handle (past ++ emitted) after task.pc task.msg := by
  have stage := live.stage
  cases moved with
  | exits | selects | retries | reports | ends | skips | misses | acceptFails | returns =>
      exact stage.quietly (.refl _ _) ⟨Iff.rfl, nofun, Iff.rfl, rfl⟩ nofun
  | finds inside reported member =>
      refine stage.quietly (.refl _ _) ⟨Iff.rfl, nofun, Iff.rfl, rfl⟩ fun absent same => ?_
      exact absurd member (Option.some.inj same ▸ absent)
  | recvFails =>
      exact stage.of_spares ((acts_snoc _ _ _).trans (List.append_nil _))
        (fun _ _ => received_recv_of_ne (.inr rfl) _ _ _) (.markDisconnected _ _ _)
        ⟨Iff.rfl, nofun, Iff.rfl, rfl⟩ nofun
  | recvCloses =>
      exact stage.of_spares ((acts_snoc _ _ _).trans (List.append_nil _))
        (fun _ _ => received_recv_of_ne (.inr rfl) _ _ _) (.markDisconnected _ _ _)
        ⟨Iff.rfl, nofun, Iff.rfl, rfl⟩ fun _ same => same
  | receives => exact stage.receives
  | deletes =>
      rw [List.append_nil]
      exact stage.deletes live.table
  | accepts valid unused =>
      exact stage.accepts _ _ unused (live.counted _ (le_refl _))
  | emplaces =>
      rw [List.append_nil]
      exact stage.emplaces
  | watches =>
      exact stage.quietly ⟨Iff.rfl, fun found => found, .refl _⟩ ⟨Iff.rfl, nofun, Iff.rfl, rfl⟩
        fun _ same => same
  | publishes => exact stage.publishes

theorem Sound.of_same (sound : Sound handle past) (sameActs : acts handle now = acts handle past)
    (sameReceived : ∀ session ∈ (log (acts handle past)).sessions, session.closed = true →
      ∀ connection, session.connection = some connection →
        received connection now = received connection past) : Sound handle now := by
  refine ⟨sameActs ▸ sound.regular, fun session member closed => ?_⟩
  rw [sameActs] at member
  obtain ⟨connection, found, whole⟩ := sound.whole session member closed
  exact ⟨connection, found, whole.trans (sameReceived session member closed connection found).symm⟩

theorem Sound.act {act : Act ℕ Byte} (sound : Sound handle past)
    (added : acts handle now = acts handle past ++ [act])
    (sameReceived : ∀ connection, received connection now = received connection past)
    (fits : (log (acts handle past)).Fits act)
    (closes : act = .closes → ∀ connection passed older,
      (log (acts handle past)).sessions = ⟨connection, passed, false⟩ :: older →
        ∃ id, connection = some id ∧ passed = received id past) : Sound handle now := by
  refine ⟨added ▸ sound.regular.snoc fits, fun session member closed => ?_⟩
  rw [added, log_snoc] at member
  simp only [sameReceived]
  rcases closed_of_record member closed with old | ⟨isCloses, connection, passed, older, current, rfl⟩
  · exact sound.whole session old closed
  · exact closes isCloses connection passed older current

theorem Stage.isOpen {connection : ℕ} {passed : List Byte} {older : List (Session ℕ Byte)}
    (current : (log (acts handle past)).sessions = ⟨some connection, passed, false⟩ :: older) :
    (log (acts handle past)).isOpen = true := by
  simp only [Log.isOpen, current]

theorem Stage.notice_sound {pass : Pass} {notice : Notice}
    (stage : Stage handle past server (.publish pass notice) msg) (sound : Sound handle past) :
    Sound handle (past ++ [.callback (notice.callback msg)]) := by
  have sameReceived : ∀ connection, received connection (past ++ [.callback (notice.callback msg)]) =
      received connection past :=
    fun connection => (received_snoc _ _ _).trans (List.append_nil _)
  have added := acts_snoc handle past (.callback (notice.callback msg))
  rw [act_notice] at added
  by_cases own : notice.client = handle
  · rw [if_pos own, Option.toList_some] at added
    cases stage with
    | absent unregistered idle shut => exact absurd (congrArg some own) idle
    | arriving arrives entered object accepted silent shut =>
        cases notice with
        | clientConnect => exact sound.act added sameReceived shut nofun
        | clientMsg | disconnected => cases arrives
    | present member announced stays object current delivered =>
        cases notice with
        | clientMsg => exact sound.act added sameReceived (isOpen current) nofun
        | disconnected => exact absurd (congrArg some own) stays
        | clientConnect => exact absurd (congrArg some own) announced
    | leaving leaves unregistered gone current delivered =>
        cases notice with
        | disconnected =>
            refine sound.act added sameReceived (isOpen current) fun _ connection passed older same => ?_
            rw [current] at same
            cases same
            exact ⟨_, rfl, delivered⟩
        | clientMsg | clientConnect => cases leaves
  · rw [if_neg own, Option.toList_none, List.append_nil] at added
    exact sound.of_same added fun _ _ _ connection _ => sameReceived connection

theorem Moved.received_of_closed {label : Label} {task : Task} {emitted : List Event}
    (moved : Moved server msg pc label after task emitted) {connection : ℕ}
    (closed : ∀ fd, server.kernel.object fd ≠ some (.connection connection)) (past : List Event) :
    received connection (past ++ emitted) = received connection past := by
  -- Only from a connection that is open can bytes be received.
  cases moved with
  | recvFails | recvCloses | receives => exact received_recv_of_ne (.inl (closed _)) _ _ _
  | accepts | publishes => exact (received_snoc _ _ _).trans (List.append_nil _)
  | _ => rw [List.append_nil]

theorem Moved.acts {label : Label} {task : Task} {emitted : List Event}
    (moved : Moved server msg pc label after task emitted) (handle : ClientHandle) (past : List Event) :
    acts handle (past ++ emitted) = acts handle past ∨
      ∃ act, acts handle (past ++ emitted) = acts handle past ++ [act] ∧
        (act = .closes → pc.leaving = some handle) := by
  -- Only the notice of a deleted client closes a session.
  cases moved with
  | recvFails | recvCloses | receives => exact .inl ((acts_snoc _ _ _).trans (List.append_nil _))
  | @accepts pass clientfd =>
      rw [acts_snoc, Event.act]
      split
      · exact .inr ⟨_, rfl, nofun⟩
      · exact .inl (List.append_nil _)
  | @publishes pass notice =>
      rw [acts_snoc, act_notice]
      split
      · rename_i own
        refine .inr ⟨_, rfl, fun closes => ?_⟩
        cases notice with
        | disconnected client => exact congrArg some own
        | clientMsg | clientConnect => cases closes
      · exact .inl (List.append_nil _)
  | _ => exact .inl (by rw [List.append_nil])

theorem Moved.sound {label : Label} {task : Task} {emitted : List Event}
    (moved : Moved server msg pc label after task emitted) (live : Live handle past server pc msg)
    (sound : Sound handle past) : Sound handle (past ++ emitted) := by
  have sameReceived : ∀ session ∈ (log (TcpServer.acts handle past)).sessions, session.closed = true →
      ∀ connection, session.connection = some connection →
        received connection (past ++ emitted) = received connection past :=
    fun session member closed connection found =>
      moved.received_of_closed (fun fd => (live.retired session member closed connection found fd).1) past
  cases moved with
  | publishes => exact live.stage.notice_sound sound
  | @accepts pass clientfd _ _ valid unused =>
      have added := acts_snoc handle past (.accept pass.fd clientfd server.kernel.connections)
      rw [Event.act] at added
      split at added
      · exact sound.act added (fun _ => (received_snoc _ _ _).trans (List.append_nil _)) trivial nofun
      · exact sound.of_same (added.trans (List.append_nil _)) sameReceived
  | recvFails | recvCloses | receives =>
      exact sound.of_same ((acts_snoc _ _ _).trans (List.append_nil _)) sameReceived
  | _ => rwa [List.append_nil]

theorem Stage.leaves (stage : Stage handle past server pc msg) (leaves : pc.leaving = some handle) :
    ∃ connection passed older, (∀ fd, server.kernel.Gone fd connection) ∧
      (log (acts handle past)).sessions = ⟨some connection, passed, false⟩ :: older := by
  cases stage with
  | leaving _ _ gone current _ => exact ⟨_, _, _, gone, current⟩
  | present _ _ stays => exact absurd leaves stays
  | absent _ idle =>
      unfold Pc.leaving at leaves
      split at leaves
      · exact absurd leaves idle
      · cases leaves
  | arriving arrives =>
      unfold Pc.leaving at leaves
      split at leaves
      · cases arrives
      · cases leaves

theorem Moved.retired {label : Label} {task : Task} {emitted : List Event}
    (moved : Moved server msg pc label after task emitted) (live : Live handle past server pc msg) :
    ∀ session ∈ (log (TcpServer.acts handle (past ++ emitted))).sessions, session.closed = true →
      ∀ connection, session.connection = some connection →
        ∀ fd, after.kernel.Gone fd connection := by
  intro session member closed connection found fd
  apply moved.lasting.2.gone
  rcases moved.acts handle past with same | ⟨act, added, closes⟩
  · rw [same] at member
    exact live.retired session member closed connection found fd
  · rw [added, log_snoc] at member
    rcases closed_of_record member closed with old | ⟨isCloses, _, passed, older, current, rfl⟩
    · exact live.retired session old closed connection found fd
    · obtain ⟨last, _, _, gone, latest⟩ := live.stage.leaves (closes isCloses)
      rw [latest] at current
      cases current
      cases found
      exact gone fd

theorem Moved.live {label : Label} {task : Task} {emitted : List Event}
    (moved : Moved server msg pc label after task emitted) (live : Live handle past server pc msg) :
    Live handle (past ++ emitted) after task.pc task.msg where
  table := moved.registered live.table
  retired := moved.retired live
  counted := by
    intro connection uncounted
    have earlier := moved.lasting.2.counts.trans uncounted
    rw [moved.received_of_closed (fun fd found => ?_) past]
    · exact live.counted connection earlier
    · exact absurd (server.kernel.counted fd connection found) (not_lt.mpr earlier)
  stage := moved.stage live

/-- The rest of the process, and the calls of the server that are not made by its thread, leave the
clients alone. -/
theorem Live.of_others (live : Live handle past server pc msg)
    (sameActs : acts handle now = acts handle past)
    (sameReceived : ∀ connection, received connection now = received connection past)
    (clients : after.clients = server.clients) (others : server.kernel.Others after.kernel)
    (undelivered : pc.undelivered handle buffer = pc.undelivered handle msg) :
    Live handle now after pc buffer where
  table := live.table.of_others clients others
  retired := by
    intro session member closed connection found fd
    rw [sameActs] at member
    exact (Kernel.Later.others others).gone (live.retired session member closed connection found fd)
  counted := by
    intro connection uncounted
    rw [sameReceived]
    exact live.counted connection (others.counted ▸ uncounted)
  stage := live.stage.of_spares sameActs (fun connection _ => sameReceived connection)
    (.of_others clients others) ⟨Iff.rfl, fun same => same, Iff.rfl, undelivered⟩ fun _ same => same

end Preserve

end TcpServer

namespace System

open TcpServer

def Untouched (taken : Taken System Label Event) : Prop :=
  match taken.label with
  | .call _ (.deleteClient _) => False
  | _ => True

instance (taken : Taken System Label Event) : Decidable (Untouched taken) :=
  match taken with
  | ⟨_, .call _ (.deleteClient _), _⟩ => isFalse id
  | ⟨_, .call _ (.sendBcast _ _), _⟩ | ⟨_, .call _ (.sendClientMessage _ _ _), _⟩
  | ⟨_, .call _ (.getClientInfo _), _⟩ | ⟨_, .serverTask, _⟩ | ⟨_, .select _ _, _⟩ | ⟨_, .recv _ _, _⟩
  | ⟨_, .accept _ _ _, _⟩ | ⟨_, .returns, _⟩ | ⟨_, .start _ _, _⟩ | ⟨_, .stop, _⟩ | ⟨_, .finish, _⟩
  | ⟨_, .opens _, _⟩ | ⟨_, .closes _, _⟩ => isTrue trivial

/-- What the server thread does next; without a thread it is as if it had just begun. -/
def current (system : System) : Task := system.task.getD ⟨.loop, []⟩

theorem current_of_task {system : System} {task : Task} (running : system.task = some task) :
    system.current = task := by
  rw [current, running, Option.getD_some]

/-- After `finish` the thread, also a later one, only leaves its loop. -/
def Finished (system : System) : Prop :=
  system.server.stop = true ∧ (system.current.pc = .loop ∨ system.current.pc = .exited)

def Tracked (handle : ClientHandle) (past : List Event) (system : System) : Prop :=
  Sound handle past ∧ (system.terminated = true ∨ system.Finished ∨
    Live handle past system.server system.current.pc system.current.msg)

theorem boot_tracked (descriptors : List SOCKET) (handle : ClientHandle) :
    Tracked handle [] (boot descriptors) := by
  have unconnected := Kernel.initial_unconnected descriptors
  refine ⟨⟨regular_nil, fun _ member => absurd member List.not_mem_nil⟩, .inr (.inr ?_)⟩
  refine ⟨.of_empty rfl unconnected, fun _ member => absurd member List.not_mem_nil, fun _ _ => rfl, ?_⟩
  exact .absent (by simp [boot, TcpServer.init]) nofun rfl

section Track
variable {handle : ClientHandle} {past now emitted : List Event} {before after : System} {label : Label}

theorem Tracked.quietly (tracked : Tracked handle past before)
    (sameActs : acts handle now = acts handle past)
    (sameReceived : ∀ connection, received connection now = received connection past)
    (terminated : after.terminated = before.terminated)
    (stops : before.server.stop = true → after.server.stop = true)
    (clients : after.server.clients = before.server.clients)
    (others : before.server.kernel.Others after.server.kernel)
    (current : after.current.pc = before.current.pc)
    (undelivered : before.current.pc.undelivered handle after.current.msg =
      before.current.pc.undelivered handle before.current.msg) : Tracked handle now after := by
  obtain ⟨sound, state⟩ := tracked
  refine ⟨sound.of_same sameActs fun _ _ _ connection _ => sameReceived connection, ?_⟩
  rcases state with ended | ⟨stopped, place⟩ | live
  · exact .inl (terminated.trans ended)
  · exact .inr (.inl ⟨stops stopped, by rwa [current]⟩)
  · exact .inr (.inr (current ▸ live.of_others sameActs sameReceived clients others undelivered))

theorem Tracked.moves {task next : Task} {server : TcpServer} (tracked : Tracked handle past before)
    (alive : before.terminated = false) (running : before.task = some task)
    (moved : Moved before.server task.msg task.pc label server next emitted) :
    Tracked handle (past ++ emitted) { before with server, task := some next } := by
  have now := current_of_task running
  obtain ⟨sound, ended | ⟨stopped, place⟩ | live⟩ := tracked
  · rw [alive] at ended
    cases ended
  · -- After `finish` the loop is left at once.
    rw [now] at place
    generalize task.pc = pc at moved place
    cases moved with
    | exits =>
        rw [List.append_nil]
        exact ⟨sound, .inr (.inl ⟨stopped, .inr rfl⟩)⟩
    | selects running =>
        rw [stopped] at running
        cases running
    | _ => rcases place with place | place <;> cases place
  · rw [now] at live
    exact ⟨moved.sound live sound, .inr (.inr (moved.live live))⟩

theorem step_tracked (tracked : Tracked handle past before)
    (untouched : Untouched ⟨before, label, emitted⟩)
    (stepped : step before label = some (after, emitted)) : Tracked handle (past ++ emitted) after := by
  have unheard : ∀ event : Event, event.act handle = none →
      acts handle (past ++ [event]) = acts handle past := by
    intro event ignored
    rw [acts_snoc, ignored, Option.toList_none, List.append_nil]
  have unread : ∀ event : Event, (∀ connection, event.received connection = []) →
      ∀ connection, received connection (past ++ [event]) = received connection past := by
    intro event ignored connection
    rw [received_snoc, ignored, List.append_nil]
  cases step_changed stepped with
  | moves running moved => exact tracked.moves (step_alive stepped) running moved
  | @calls caller call =>
      -- Without `deleteClient` no call of the application changes the server.
      have same : (before.server.perform call).1 = before.server := by
        cases call with
        | deleteClient => exact untouched.elim
        | sendBcast | sendClientMessage | getClientInfo => rfl
      rw [same]
      exact tracked.quietly (unheard _ rfl) (unread _ fun _ => rfl) rfl (fun stopped => stopped) rfl
        (.refl _) rfl rfl
  | starts unused valid success idle =>
      have atLoop : before.current = ⟨.loop, []⟩ := by simp [current, idle]
      exact tracked.quietly (unheard _ rfl) (unread _ fun _ => rfl) rfl (fun stopped => stopped) rfl
        (.socket (Kernel.not_open unused)) (by rw [atLoop]; rfl) (by rw [atLoop]; rfl)
  | terminates busy =>
      rw [List.append_nil]
      exact ⟨tracked.1, .inl rfl⟩
  | startFails opened =>
      refine tracked.quietly (unheard _ rfl) (unread _ fun _ => rfl) rfl (fun stopped => stopped) rfl
        ?_ rfl rfl
      rcases opened with rfl | ⟨socket, unused, rfl⟩
      · exact .refl _
      · exact .socket (Kernel.not_open unused)
  | stops =>
      rw [List.append_nil]
      exact tracked.quietly rfl (fun _ => rfl) rfl (fun _ => rfl) rfl (.refl _) rfl rfl
  | finishes stopped joined =>
      rw [List.append_nil]
      exact ⟨tracked.1, .inr (.inl ⟨stopped, .inl rfl⟩)⟩
  | opens unused =>
      rw [List.append_nil]
      exact tracked.quietly rfl (fun _ => rfl) rfl (fun stopped => stopped) rfl
        (.opens (Kernel.not_open unused)) rfl rfl
  | closes belongs =>
      rw [List.append_nil]
      exact tracked.quietly rfl (fun _ => rfl) rfl (fun stopped => stopped) rfl (.closes belongs) rfl rfl

end Track

/-- The callbacks for a handle are those of sessions one after another, and between the connect
callback of one and its disconnect callback the application has been passed the bytes that were
received for its connection. -/
theorem callbacks_sessions {descriptors : List SOCKET} {steps : List (Taken System Label Event)}
    {final : System} (run : Run step (boot descriptors) steps final)
    (untouched : ∀ taken ∈ steps, Untouched taken) (handle : ClientHandle) :
    (∃ word ∈ complete, marks (acts handle (trace steps)) <+: word) ∧
    ∀ past middle rest, acts handle (trace steps) = past ++ .opens :: middle ++ .closes :: rest →
      Act.opens ∉ middle → Act.closes ∉ middle →
        ∃ connection, lastAccepted past = some connection ∧
          passed middle = received connection (trace steps) := by
  have tracked : Tracked handle (trace steps) final :=
    run.history Untouched (Tracked handle) (boot_tracked descriptors handle)
      (fun _ _ _ _ _ => step_tracked) untouched
  refine ⟨tracked.1.regular.exists_complete, fun past middle rest same noOpens noCloses => ?_⟩
  exact tracked.1.whole _ (mem_log_between same noOpens noCloses) rfl

def recvPass : List Label := [.serverTask, .select 1 {4}] ++ List.replicate 5 .serverTask

/-- One client connects, sends two pieces of data and disconnects. -/
theorem callbacks_sessions_one : ∃ steps final, Run step (boot [0, 1, 2]) steps final ∧
    received 0 (trace steps) = [1, 2, 3] ∧
    (∃ word ∈ complete, marks (acts 4 (trace steps)) <+: word) ∧
    ∀ past middle rest, acts 4 (trace steps) = past ++ .opens :: middle ++ .closes :: rest →
      Act.opens ∉ middle → Act.closes ∉ middle →
        ∃ connection, lastAccepted past = some connection ∧
          passed middle = received connection (trace steps) := by
  have computed : (exec step (boot [0, 1, 2]) (.start (listening 3) [] :: acceptPass 4 0 ++
      recvPass ++ [.recv 2 [1, 2], .serverTask, .returns, .serverTask] ++
      recvPass ++ [.recv 1 [3], .serverTask, .returns, .serverTask] ++
      recvPass ++ [.recv 0 [], .serverTask, .serverTask, .returns, .serverTask])).any (fun outcome =>
        decide (∀ taken ∈ outcome.1, Untouched taken) &&
          decide (received 0 (trace outcome.1) = [1, 2, 3])) = true := by
    decide +kernel
  obtain ⟨steps, final, run, checked⟩ := exists_run_of_exec computed
  simp only [Bool.and_eq_true, decide_eq_true_eq] at checked
  exact ⟨steps, final, run, checked.2, callbacks_sessions run checked.1 4⟩

end System

end ZmqPlayground
