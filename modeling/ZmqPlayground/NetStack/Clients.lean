import ZmqPlayground.Common.Sessions
import ZmqPlayground.NetStack.NetStack

/-! The TCP stack with its server, from its construction to the end of its destructor.

The stack keeps the handles of its clients in a set of its own. Its callbacks run on
the server thread and change the set after the server has changed its table.
-/

set_option autoImplicit false

namespace ZmqPlayground

open Library
open Library.Runs

namespace NetStack

/-- How far the stack has come: `finishing` is within the call of `finish`. -/
inductive Stage where
  | constructing
  | alive
  | finishing
  | finished
  | destroyed
  deriving DecidableEq

/-- What is left to do in the callback that the server thread is in. -/
inductive Body where
  | getClientInfo (client : ClientHandle)
  | insert (client : ClientHandle)
  | erase (client : ClientHandle)
  | publish (client : ClientHandle) (data : List Byte)
  | done
  deriving DecidableEq

def onClientConnect (client : ClientHandle) : Body := .getClientInfo client

def onClientDisconnect (client : ClientHandle) : Body := .erase client

/-- The callbacks begin with logging, and with nothing else. -/
def Body.begin : TcpServer.Callback → Body
  | .onReceiveClientData client data => .publish client data
  | .onClientDisconnect client _ => onClientDisconnect client
  | .onClientConnect client => onClientConnect client

inductive Event where
  | server (event : TcpServer.Event)
  /-- Messages for the data of a client, with what its handle refers to. -/
  | publishes (client : ClientHandle) (object : Option Object) (msgs : List Message)
  deriving DecidableEq

inductive Label where
  | server (label : TcpServer.Label)
  /-- The callback goes on. -/
  | callback
  /-- The destructor after `finish`. -/
  | clear
  deriving DecidableEq

end NetStack

open NetStack in
structure NetStack where
  pubTopics : List Str
  server : System
  clients : Finset ClientHandle
  body : Body
  stage : Stage
  deriving DecidableEq

namespace NetStack

def create (pubTopics : List Str) (descriptors : List SOCKET) : NetStack :=
  ⟨pubTopics, .boot descriptors, ∅, .done, .constructing⟩

/-- The server is the stack's own: it is started by the constructor, finished by the destructor and
told to broadcast by the subscriber's thread. Its thread returns from a callback at its end. -/
def Stage.next (stage : Stage) (body : Body) : TcpServer.Label → Option Stage
  | .start _ _ => if stage = .constructing then some .alive else none
  | .stop => if stage = .alive then some .finishing else none
  | .finish => if stage = .finishing then some .finished else none
  | .returns => if body = .done then some stage else none
  | .call .otherThread (.sendBcast _ _) => some stage
  | .call _ _ => none
  | .serverTask | .select _ _ | .recv _ _ | .accept _ _ _ | .opens _ | .closes _ => some stage

def Body.enter (current : Body) : List TcpServer.Event → Body
  | [.callback callback] => .begin callback
  | _ => current

def step : Step NetStack Label Event := fun stack label =>
  match label with
  | .server label => do
      let stage ← stack.stage.next stack.body label
      let (server, events) ← System.step stack.server label
      some ({ stack with server, stage, body := stack.body.enter events }, events.map .server)
  | .callback => match stack.body with
      | .getClientInfo client =>
          if (stack.server.server.getClientInfo client).isSome then
            some ({ stack with body := .insert client }, [])
          else some ({ stack with body := .done }, [])
      | .insert client =>
          some ({ stack with clients := insert client stack.clients, body := .done }, [])
      | .erase client => some ({ stack with clients := stack.clients.erase client, body := .done }, [])
      | .publish client data =>
          some ({ stack with body := .done }, [.publishes client
            (stack.server.server.kernel.object client) (onReceiveClientData stack.pubTopics data)])
      | .done => none
  | .clear =>
      if stack.stage = .finished then some ({ stack with clients := ∅, stage := .destroyed }, [])
      else none

inductive Changed (stack : NetStack) : Label → NetStack → List Event → Prop where
  | server {label : TcpServer.Label} {stage : Stage} {server : System} {events : List TcpServer.Event}
      (allowed : stack.stage.next stack.body label = some stage)
      (stepped : System.step stack.server label = some (server, events)) :
      Changed stack (.server label) { stack with server, stage, body := stack.body.enter events }
        (events.map .server)
  | found {client : ClientHandle} (here : stack.body = .getClientInfo client)
      (member : client ∈ stack.server.server.clients) :
      Changed stack .callback { stack with body := .insert client } []
  | missing {client : ClientHandle} (here : stack.body = .getClientInfo client)
      (absent : client ∉ stack.server.server.clients) :
      Changed stack .callback { stack with body := .done } []
  | inserts {client : ClientHandle} (here : stack.body = .insert client) :
      Changed stack .callback
        { stack with clients := insert client stack.clients, body := .done } []
  | erases {client : ClientHandle} (here : stack.body = .erase client) :
      Changed stack .callback
        { stack with clients := stack.clients.erase client, body := .done } []
  | publishes {client : ClientHandle} {data : List Byte} (here : stack.body = .publish client data) :
      Changed stack .callback { stack with body := .done } [.publishes client
        (stack.server.server.kernel.object client) (onReceiveClientData stack.pubTopics data)]
  | clears (finished : stack.stage = .finished) :
      Changed stack .clear { stack with clients := ∅, stage := .destroyed } []

theorem step_changed {before after : NetStack} {label : Label} {events : List Event}
    (stepped : step before label = some (after, events)) : Changed before label after events := by
  cases label with
  | server label =>
      simp only [step, Option.bind_eq_bind, Option.bind_eq_some_iff, Option.some.injEq, Prod.mk.injEq,
        Prod.exists] at stepped
      obtain ⟨stage, allowed, server, emitted, moved, rfl, rfl⟩ := stepped
      exact .server allowed moved
  | callback =>
      simp only [step] at stepped
      split at stepped
      · rename_i client here
        have known : (before.server.server.getClientInfo client).isSome ↔
            client ∈ before.server.server.clients := by
          rw [TcpServer.getClientInfo, Option.isSome_map, AList.lookup_isSome]
        split at stepped <;> cases stepped
        · rename_i found
          exact .found here (known.mp found)
        · rename_i unknown
          exact .missing here (mt known.mpr unknown)
      · cases stepped
        exact .inserts (by assumption)
      · cases stepped
        exact .erases (by assumption)
      · cases stepped
        exact .publishes (by assumption)
      · cases stepped
  | clear =>
      simp only [step] at stepped
      split at stepped <;> cases stepped
      exact .clears (by assumption)

/-- A change of the table that `m_clients` has not followed yet. -/
inductive Change where
  | joins (client : ClientHandle)
  | leaves (client : ClientHandle)

def Change.apply (clients : Finset ClientHandle) : Option Change → Finset ClientHandle
  | some (.joins client) => insert client clients
  | some (.leaves client) => clients.erase client
  | none => clients

open TcpServer in
/-- The change the server thread is about to tell the stack of. -/
def pcChange : Pc → Option Change
  | .watch _ clientfd | .publish _ (.clientConnect clientfd) => some (.joins clientfd)
  | .publish _ (.disconnected client) => some (.leaves client)
  | _ => none

def Body.change : Body → Option Change
  | .getClientInfo client | .insert client => some (.joins client)
  | .erase client => some (.leaves client)
  | .publish _ _ | .done => none

section Moves
open TcpServer
variable {server after : TcpServer} {msg : List Byte} {pc : Pc} {label : TcpServer.Label} {task : Task}
  {events : List TcpServer.Event} {body : Body} {clients : Finset ClientHandle}

theorem keySet_deleteClient (server : TcpServer) (handle : ClientHandle) :
    (server.deleteClient handle).1.clients.keySet = server.clients.keySet.erase handle := by
  by_cases member : handle ∈ server.clients
  · obtain ⟨client, found⟩ := Table.exists_lookup member
    rw [deleteClient_of_lookup found]
    exact Table.keySet_erase _ _
  · rw [deleteClient_of_not_mem member, Finset.erase_eq_of_notMem]
    rwa [Table.mem_keySet]

theorem Moved.mirrors (moved : Moved server msg pc label after task events)
    (inside : body = .done ∨ ∃ pass, pc = .callback pass) (returning : label = .returns → body = .done)
    (mirror : server.clients.keySet = Change.apply clients ((pcChange pc).or body.change)) :
    after.clients.keySet = Change.apply clients ((pcChange task.pc).or (body.enter events).change) ∧
      (body.enter events = .done ∨ ∃ pass, task.pc = .callback pass) := by
  have done : (∀ pass, pc ≠ .callback pass) → body = .done :=
    fun elsewhere => inside.resolve_right fun ⟨pass, here⟩ => elsewhere pass here
  cases moved with
  | exits | selects | retries | reports | ends | skips | finds | misses | acceptFails =>
      obtain rfl := done nofun
      exact ⟨mirror, .inl rfl⟩
  | recvFails | recvCloses =>
      obtain rfl := done nofun
      exact ⟨(Table.keySet_modify _ _ _).trans mirror, .inl rfl⟩
  | receives | accepts | watches =>
      obtain rfl := done nofun
      exact ⟨mirror, .inl rfl⟩
  | deletes =>
      obtain rfl := done nofun
      rw [keySet_deleteClient, mirror]
      exact ⟨rfl, .inl rfl⟩
  | emplaces =>
      obtain rfl := done nofun
      refine ⟨(Table.keySet_emplace _ _ _).trans ?_, .inl rfl⟩
      rw [mirror]
      rfl
  | @publishes pass notice =>
      obtain rfl := done nofun
      refine ⟨mirror.trans ?_, .inr ⟨pass, rfl⟩⟩
      cases notice <;> rfl
  | returns =>
      obtain rfl := returning rfl
      exact ⟨mirror, .inl rfl⟩

end Moves

/-- `m_clients` and the table, until the server is finished and after it. -/
inductive Mirrored (stack : NetStack) : Prop where
  | running (unfinished : stack.stage ≠ .finished ∧ stack.stage ≠ .destroyed)
      (idle : stack.stage = .constructing → stack.server.task = none)
      (inside : stack.body = .done ∨ ∃ pass, stack.server.current.pc = .callback pass)
      (mirror : stack.server.server.clients.keySet =
        Change.apply stack.clients ((pcChange stack.server.current.pc).or stack.body.change))
  | finished (ended : stack.stage = .finished ∨ stack.stage = .destroyed) (idle : stack.server.task = none)
      (done : stack.body = .done) (empty : stack.server.server.clients = ∅)
      (cleared : stack.stage = .destroyed → stack.clients = ∅)

theorem Stage.next_of_moved {server after : TcpServer} {msg : List Byte} {pc : TcpServer.Pc}
    {label : TcpServer.Label} {task : TcpServer.Task} {events : List TcpServer.Event} {stage later : Stage}
    {body : Body} (moved : TcpServer.Moved server msg pc label after task events)
    (allowed : stage.next body label = some later) :
    later = stage ∧ (label = .returns → body = .done) := by
  cases moved with
  | returns =>
      simp only [Stage.next] at allowed
      split at allowed <;> cases allowed
      rename_i done
      exact ⟨rfl, fun _ => done⟩
  | _ =>
      cases allowed
      exact ⟨rfl, nofun⟩

theorem Stage.next_of_call {stage later : Stage} {body : Body} {caller : TcpServer.Caller}
    {call : TcpServer.Call} (allowed : stage.next body (.call caller call) = some later)
    (server : TcpServer) : later = stage ∧ (server.perform call).1 = server := by
  cases caller with
  | serverTask => cases allowed
  | otherThread =>
      cases call with
      | sendBcast =>
          cases allowed
          exact ⟨rfl, rfl⟩
      | deleteClient | sendClientMessage | getClientInfo => cases allowed

section Step
variable {before after : NetStack} {label : Label} {events : List Event} {server : System}
  {called : TcpServer.Label} {stage : Stage} {emitted : List TcpServer.Event}

theorem mirrored_of_running (unfinished : before.stage ≠ .finished ∧ before.stage ≠ .destroyed)
    (idle : before.stage = .constructing → before.server.task = none)
    (inside : before.body = .done ∨ ∃ pass, before.server.current.pc = .callback pass)
    (mirror : before.server.server.clients.keySet =
      Change.apply before.clients ((pcChange before.server.current.pc).or before.body.change))
    (allowed : before.stage.next before.body called = some stage)
    (moved : System.step before.server called = some (server, emitted)) :
    Mirrored { before with server, stage, body := before.body.enter emitted } := by
  cases System.step_changed moved with
  | moves running moved =>
      obtain ⟨rfl, returning⟩ := Stage.next_of_moved moved allowed
      rw [System.current_of_task running] at inside mirror
      obtain ⟨still, within⟩ := Moved.mirrors moved inside returning mirror
      refine .running unfinished (fun constructing => ?_) within still
      rw [idle constructing] at running
      cases running
  | @calls caller call =>
      obtain ⟨rfl, same⟩ := Stage.next_of_call allowed before.server.server
      rw [same]
      exact .running unfinished idle inside mirror
  | starts unused valid success none =>
      simp only [Stage.next, Option.ite_none_right_eq_some, Option.some.injEq] at allowed
      obtain ⟨-, rfl⟩ := allowed
      have atLoop : before.server.current = ⟨.loop, []⟩ := by rw [System.current, none, Option.getD_none]
      rw [atLoop] at inside mirror
      have done := inside.resolve_right (by simp)
      exact .running (by simp) (by simp) (.inl done) mirror
  | terminates busy =>
      simp only [Stage.next, Option.ite_none_right_eq_some] at allowed
      exact absurd (idle allowed.1) busy
  | startFails =>
      simp only [Stage.next, Option.ite_none_right_eq_some, Option.some.injEq] at allowed
      obtain ⟨-, rfl⟩ := allowed
      exact .running (by simp) (by simp) inside mirror
  | stops =>
      simp only [Stage.next, Option.ite_none_right_eq_some, Option.some.injEq] at allowed
      obtain ⟨-, rfl⟩ := allowed
      exact .running (by simp) (by simp) inside mirror
  | finishes stopped joined =>
      simp only [Stage.next, Option.ite_none_right_eq_some, Option.some.injEq] at allowed
      obtain ⟨-, rfl⟩ := allowed
      refine .finished (.inl rfl) rfl (inside.resolve_right ?_) rfl (by simp)
      -- The thread is joined, so it is in no callback.
      rintro ⟨pass, here⟩
      cases running : before.server.task with
      | none =>
          rw [System.current, running] at here
          cases here
      | some task =>
          rw [System.current_of_task running, joined task running] at here
          cases here
  | opens | closes =>
      cases allowed
      exact .running unfinished idle inside mirror

theorem mirrored_of_finished (finished : before.stage = .finished ∨ before.stage = .destroyed)
    (idle : before.server.task = none) (done : before.body = .done)
    (empty : before.server.server.clients = ∅) (cleared : before.stage = .destroyed → before.clients = ∅)
    (allowed : before.stage.next before.body called = some stage)
    (moved : System.step before.server called = some (server, emitted)) :
    Mirrored { before with server, stage, body := before.body.enter emitted } := by
  have later : before.stage ≠ .constructing ∧ before.stage ≠ .alive ∧ before.stage ≠ .finishing := by
    rcases finished with same | same <;> rw [same] <;> exact ⟨nofun, nofun, nofun⟩
  cases System.step_changed moved with
  | moves running =>
      rw [idle] at running
      cases running
  | calls =>
      obtain ⟨rfl, same⟩ := Stage.next_of_call allowed before.server.server
      rw [same]
      exact .finished finished idle done empty cleared
  | starts | terminates | startFails =>
      simp only [Stage.next, Option.ite_none_right_eq_some] at allowed
      exact absurd allowed.1 later.1
  | stops =>
      simp only [Stage.next, Option.ite_none_right_eq_some] at allowed
      exact absurd allowed.1 later.2.1
  | finishes =>
      simp only [Stage.next, Option.ite_none_right_eq_some] at allowed
      exact absurd allowed.1 later.2.2
  | opens | closes =>
      cases allowed
      exact .finished finished idle done empty cleared

theorem step_mirrored (mirrored : Mirrored before) (stepped : step before label = some (after, events)) :
    Mirrored after := by
  cases mirrored with
  | running unfinished idle inside mirror =>
      cases step_changed stepped with
      | server allowed moved => exact mirrored_of_running unfinished idle inside mirror allowed moved
      | found here =>
          rw [here] at inside mirror
          exact .running unfinished idle (.inr (inside.resolve_left nofun)) mirror
      | @missing client here absent =>
          rw [here] at inside mirror
          obtain ⟨pass, within⟩ := inside.resolve_left nofun
          rw [within] at mirror
          -- The callback is for a client that has just been entered.
          apply absurd _ absent
          rw [← Table.mem_keySet, mirror]
          exact Finset.mem_insert_self _ _
      | inserts here | erases here | publishes here =>
          rw [here] at inside mirror
          obtain ⟨pass, within⟩ := inside.resolve_left nofun
          refine .running unfinished idle (.inl rfl) (mirror.trans ?_)
          rw [within]
          rfl
      | clears finished => exact absurd finished unfinished.1
  | finished ended idle done empty cleared =>
      cases step_changed stepped with
      | server allowed moved => exact mirrored_of_finished ended idle done empty cleared allowed moved
      | found here | missing here | inserts here | erases here | publishes here =>
          rw [done] at here
          cases here
      | clears => exact .finished (.inr rfl) idle done empty fun _ => rfl

end Step

/-- At the top of the loop the stack knows exactly the clients its server has, and in the end neither
has any. -/
theorem clients_eq_keySet {pubTopics : List Str} {descriptors : List SOCKET}
    {steps : List (Taken NetStack Label Event)} {final : NetStack}
    (run : Run step (create pubTopics descriptors) steps final) :
    (final.server.AtLoop → final.clients = final.server.server.clients.keySet) ∧
      (final.stage = .destroyed → final.clients = ∅ ∧ final.server.server.clients = ∅) := by
  have mirrored : Mirrored final :=
    run.always Mirrored (.running (by simp [create]) (fun _ => rfl) (.inl rfl) rfl) fun _ _ _ _ => step_mirrored
  cases mirrored with
  | running unfinished idle inside mirror =>
      refine ⟨fun top => ?_, fun destroyed => absurd destroyed unfinished.2⟩
      obtain ⟨msg, running⟩ := top.task
      rw [System.current_of_task running] at inside mirror
      rw [inside.resolve_right nofun] at mirror
      exact mirror.symm
  | finished ended idle done empty cleared =>
      refine ⟨fun top => ?_, fun destroyed => ⟨cleared destroyed, empty⟩⟩
      obtain ⟨msg, running⟩ := top.task
      rw [idle] at running
      cases running

def accepting (clientfd : SOCKET) : List Label :=
  [.server (.start (System.listening 3) [])] ++
    ((System.acceptPass clientfd 0).take 10).map .server ++ [.callback, .callback] ++
    ((System.acceptPass clientfd 0).drop 10).map .server

/-- A client connects, and the stack is destroyed while it is still there. -/
theorem clients_eq_keySet_destroyed : ∃ steps middle later final,
    Run step (create [] [0, 1, 2]) steps middle ∧ middle.clients = {4} ∧
      middle.clients = middle.server.server.clients.keySet ∧
      Run step (create [] [0, 1, 2]) (steps ++ later) final ∧
      final.clients = ∅ ∧ final.server.server.clients = ∅ := by
  have computed : (exec step (create [] [0, 1, 2]) (accepting 4)).any (fun (_, middle) =>
      decide (middle.server.AtLoop ∧ middle.clients = {4}) &&
        (exec step middle [.server .stop, .server .serverTask, .server .finish, .clear]).any
          fun (_, final) => decide (final.stage = .destroyed)) = true := by
    decide +kernel
  obtain ⟨steps, middle, run, checked⟩ := exists_run_of_exec computed
  simp only [Bool.and_eq_true, decide_eq_true_eq] at checked
  obtain ⟨⟨top, clients⟩, computed⟩ := checked
  obtain ⟨later, final, rest, destroyed⟩ := exists_run_of_exec computed
  have whole := run.append rest
  exact ⟨steps, middle, later, final, run, clients, (clients_eq_keySet run).1 top, whole,
    (clients_eq_keySet whole).2 (of_decide_eq_true destroyed)⟩

end NetStack

end ZmqPlayground
