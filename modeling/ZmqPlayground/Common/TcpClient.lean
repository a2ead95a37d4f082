import ZmqPlayground.Common.TcpServer
import ZmqPlayground.Library.Runs

/-! The TCP client: its operations, and its receive thread among the threads that call them.

Of the descriptors of the process only those matter here that `Socket` has handed
to this client and that are still open: `Socket` returns none of them again.
-/

set_option autoImplicit false

namespace ZmqPlayground

open Library
open Library.Runs

structure TcpClient where
  sockfd : SOCKET
  stop : Bool
  opened : Finset SOCKET
  deriving DecidableEq

structure ConnectCalls where
  initResult : Int
  socket : SOCKET
  rcvBuf : Int
  sndBuf : Int
  lookupHost : Int
  connect : Int
  errno : Int
  deriving DecidableEq

def msgSize : ℕ := 100

namespace TcpClient

def init : TcpClient := ⟨invalidSocket, false, ∅⟩

/-- Whatever `m_sockfd` was, it is overwritten; a failing call leaves the new socket in it. -/
def connectTo (remoteIp : Str) (calls : ConnectCalls) (client : TcpClient) : TcpClient × SocketRet :=
  let client := { client with sockfd := invalidSocket }
  if calls.initResult ≠ 0 then
    (client, .failed "Error: Socket initialization failed: " calls.initResult)
  else if calls.socket = invalidSocket then
    (client, .failed "Error: Failed to create socket: " calls.errno)
  else
    let client := { client with sockfd := calls.socket, opened := insert calls.socket client.opened }
    if calls.rcvBuf < 0 then
      (client, .failed "Error: setsockopt(SO_REUSEADDR) failed: " calls.errno)
    else if calls.sndBuf < 0 then
      (client, .failed "Error: setsockopt(SO_SNDBUF) failed: " calls.errno)
    else if calls.lookupHost ≠ 0 then
      (client, { SocketRet.fresh with
        msg := ("Failed to resolve hostname ".toList ++ remoteIp).take (msgSize - 1) })
    else if calls.connect = -1 then
      (client, .failed "Error: connect() failed errno " calls.errno)
    else (client, .succeeded)

/-- The message is handed to `Send` once, whatever `m_sockfd` is. -/
def sendMsg (msg : List Byte) (sent : Sent) : SocketRet :=
  if sent.numBytesSent < 0 then
    .failed "Error: send() failed: " sent.errno
  else if sent.numBytesSent.toNat < msg.length then
    { SocketRet.fresh with
      msg := "Only ".toList ++ (toString sent.numBytesSent).toList ++ " bytes out of ".toList ++
        (toString msg.length).toList ++ " was sent to client".toList }
  else .succeeded

def accepted (msg : List Byte) (sent : Sent) : List Byte := msg.take sent.numBytesSent.toNat

theorem accepted_of_success {msg : List Byte} {sent : Sent} (success : (sendMsg msg sent).success = true) :
    accepted msg sent = msg := by
  unfold sendMsg at success
  split at success
  · cases success
  · split at success
    · cases success
    · rename_i whole
      exact List.take_of_length_le (not_lt.mp whole)

def closeSocket (client : TcpClient) : TcpClient :=
  let opened := if client.sockfd ≠ invalidSocket then client.opened.erase client.sockfd
    else client.opened
  { client with sockfd := invalidSocket, opened := opened }

/-- What `connectTo` does with descriptors, and that it leaves the flag alone. -/
theorem connectTo_cases (remoteIp : Str) (calls : ConnectCalls) (client : TcpClient) :
    (client.connectTo remoteIp calls).1.stop = client.stop ∧
      (calls.initResult = 0 ∧ calls.socket ≠ invalidSocket ∧
          (client.connectTo remoteIp calls).1.sockfd = calls.socket ∧
          (client.connectTo remoteIp calls).1.opened = insert calls.socket client.opened ∨
        ¬ (calls.initResult = 0 ∧ calls.socket ≠ invalidSocket) ∧
          (client.connectTo remoteIp calls).2.success = false ∧
          (client.connectTo remoteIp calls).1.sockfd = invalidSocket ∧
          (client.connectTo remoteIp calls).1.opened = client.opened) := by
  unfold connectTo
  split_ifs with initFailed socketFailed
  · exact ⟨rfl, .inr ⟨fun both => initFailed both.1, rfl, rfl, rfl⟩⟩
  · exact ⟨rfl, .inr ⟨fun both => both.2 socketFailed, rfl, rfl, rfl⟩⟩
  -- The calls on the new socket differ in their texts only.
  all_goals exact ⟨rfl, .inl ⟨not_not.mp initFailed, socketFailed, rfl, rfl⟩⟩

inductive Pc where
  | loop
  | select
  | recv
  | publish (msg : List Byte)
  | callback
  | disconnect (ret : SocketRet)
  /-- In `onDisconnect`, after which the loop is left. -/
  | leaving
  | exited
  deriving DecidableEq

inductive Event where
  | connected (ret : SocketRet)
  | recv (numOfBytesReceived : Int) (msg : List Byte)
  | onReceiveData (msg : List Byte)
  | onDisconnect (ret : SocketRet)
  deriving DecidableEq

inductive Label where
  /-- The receive thread goes on, with nothing to choose. -/
  | receiveTask
  | select (selectRet : Int) (ready : Bool)
  | recv (numOfBytesReceived : Int) (msg : List Byte) (errno : Int)
  | returns
  | connectTo (remoteIp : Str) (calls : ConnectCalls)
  | stop
  | finish
  deriving DecidableEq

def Label.ofThread : Label → Bool
  | .receiveTask | .select _ _ | .recv _ _ _ | .returns => true
  | .connectTo _ _ | .stop | .finish => false

def receiveTask (client : TcpClient) (pc : Pc) : Label → Option (TcpClient × Pc × List Event)
  | .receiveTask => match pc with
      | .loop => some (client, if client.stop then .exited else .select, [])
      | .publish msg => some (client, .callback, [.onReceiveData msg])
      | .disconnect ret => some (client, .leaving, [.onDisconnect ret])
      | _ => none
  | .select selectRet ready => match pc with
      | .select =>
          if selectRet ≤ 0 then some (client, if client.stop then .exited else .loop, [])
          else some (client, if ready then .recv else .loop, [])
      | _ => none
  | .recv numOfBytesReceived msg errno => match pc with
      | .recv =>
          if numOfBytesReceived = msg.length ∧ msg.length ≤ maxPacketSize ∨
              numOfBytesReceived < 0 ∧ msg = [] then
            let event := .recv numOfBytesReceived msg
            if numOfBytesReceived < 1 then
              let ret := if numOfBytesReceived = 0 then
                  { SocketRet.fresh with msg := "Server closed connection".toList }
                else .failed "Error: recv() failed: " errno
              some ({ client with stop := true }, .disconnect ret, [event])
            else some (client, .publish msg, [event])
          else none
      | _ => none
  | .returns => match pc with
      | .callback => some (client, .loop, [])
      | .leaving => some (client, .exited, [])
      | _ => none
  | .connectTo _ _ | .stop | .finish => none

def Label.Disconnects (label : Label) : Prop :=
  ∃ number msg errno, label = .recv number msg errno ∧ number < 1

instance (label : Label) : Decidable label.Disconnects :=
  match label with
  | .recv number msg errno => decidable_of_iff (number < 1)
      ⟨fun failed => ⟨_, _, _, rfl, failed⟩, by rintro ⟨_, _, _, same, failed⟩; cases same; exact failed⟩
  | .receiveTask | .select _ _ | .returns | .connectTo _ _ | .stop | .finish =>
      isFalse (by rintro ⟨_, _, _, same, _⟩; cases same)

theorem receiveTask_moved {client after : TcpClient} {pc next : Pc} {label : Label}
    {events : List Event} (stepped : client.receiveTask pc label = some (after, next, events)) :
    ¬ label.Disconnects ∧ after = client ∨ label.Disconnects ∧ after = { client with stop := true } := by
  cases label with
  | receiveTask =>
      cases pc <;> cases stepped
      all_goals exact .inl ⟨by simp [Label.Disconnects], rfl⟩
  | select selectRet ready =>
      cases pc with
      | select =>
          simp only [receiveTask] at stepped
          split at stepped <;> cases stepped
          all_goals exact .inl ⟨by simp [Label.Disconnects], rfl⟩
      | _ => cases stepped
  | recv number msg errno =>
      cases pc with
      | recv =>
          simp only [receiveTask] at stepped
          split at stepped
          · split at stepped <;> cases stepped
            · rename_i failed
              exact .inr ⟨⟨_, _, _, rfl, failed⟩, rfl⟩
            · rename_i positive
              exact .inl ⟨by simpa [Label.Disconnects] using positive, rfl⟩
          · cases stepped
      | _ => cases stepped
  | returns =>
      cases pc <;> cases stepped
      all_goals exact .inl ⟨by simp [Label.Disconnects], rfl⟩
  | connectTo | stop | finish => cases stepped

end TcpClient

/-- The client with its thread, which exists from a successful `connectTo` until it is joined. -/
structure ClientSystem where
  client : TcpClient
  task : Option TcpClient.Pc
  terminated : Bool
  deriving DecidableEq

namespace ClientSystem

open TcpClient

def boot : ClientSystem := ⟨.init, none, false⟩

def step : Step ClientSystem Label Event := fun system label =>
  if system.terminated then none else
  match label with
  | .connectTo remoteIp calls =>
      if calls.socket ∈ system.client.opened then none
      else
        let (client, ret) := system.client.connectTo remoteIp calls
        if ret.success then
          -- Assigning to a `std::thread` that has not been joined ends the process.
          if system.task.isSome then some ({ system with client, terminated := true }, [])
          else some ({ system with client, task := some .loop }, [.connected ret])
        else some ({ system with client }, [.connected ret])
  -- `finish` sets the flag, and closes the socket once the thread has been joined.
  | .stop => some ({ system with client := { system.client with stop := true } }, [])
  | .finish =>
      if system.client.stop ∧ ∀ pc ∈ system.task, pc = .exited then
        some ({ system with client := system.client.closeSocket, task := none }, [])
      else none
  | label => match system.task with
      | some pc => do
          let (client, pc, events) ← system.client.receiveTask pc label
          some ({ system with client, task := some pc }, events)
      | none => none

inductive Changed (system : ClientSystem) : Label → ClientSystem → List Event → Prop where
  | moves {pc next : Pc} {label : Label} {client : TcpClient} {events : List Event}
      (own : label.ofThread = true)
      (running : system.task = some pc)
      (moved : system.client.receiveTask pc label = some (client, next, events)) :
      Changed system label { system with client, task := some next } events
  | connects {remoteIp : Str} {calls : ConnectCalls} {task : Option Pc} {terminated : Bool}
      {events : List Event} (unused : calls.socket ∉ system.client.opened)
      (told : terminated = true ∧ events = [] ∨
        events = [.connected (system.client.connectTo remoteIp calls).2]) :
      Changed system (.connectTo remoteIp calls)
        ⟨(system.client.connectTo remoteIp calls).1, task, terminated⟩ events
  | stops : Changed system .stop { system with client := { system.client with stop := true } } []
  | finishes : Changed system .finish
      { system with client := system.client.closeSocket, task := none } []

theorem step_changed {system after : ClientSystem} {label : Label} {events : List Event}
    (stepped : step system label = some (after, events)) : Changed system label after events := by
  unfold step at stepped
  split at stepped
  · cases stepped
  · cases label with
    | connectTo remoteIp calls =>
        simp only at stepped
        split at stepped
        · cases stepped
        · rename_i unused
          split at stepped
          · split at stepped <;> cases stepped
            · exact .connects unused (.inl ⟨rfl, rfl⟩)
            · exact .connects unused (.inr rfl)
          · cases stepped
            exact .connects unused (.inr rfl)
    | stop => cases stepped; exact .stops
    | finish =>
        simp only at stepped
        split at stepped <;> cases stepped
        exact .finishes
    | receiveTask | select | recv | returns =>
        simp only at stepped
        split at stepped
        · rename_i pc running
          simp only [Option.bind_eq_bind, Option.bind_eq_some_iff, Option.some.injEq, Prod.mk.injEq,
            Prod.exists] at stepped
          obtain ⟨client, next, emitted, moved, rfl, rfl⟩ := stepped
          exact .moves rfl running moved
        · cases stepped

end ClientSystem

end ZmqPlayground
