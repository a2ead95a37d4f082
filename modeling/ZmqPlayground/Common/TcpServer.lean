import ZmqPlayground.Common.Message
import ZmqPlayground.Common.SocketCore

/-! The TCP server: its client table, its watch set and the operations of its interface.

The watch set `m_fds` is a finite set of descriptors, without the bound of `fd_set`.
The server's mutex makes each of these operations one step of the runs below.
-/

set_option autoImplicit false

namespace ZmqPlayground

open Library

abbrev ClientHandle := SOCKET

def maxPacketSize : ℕ := 65536

structure SocketRet where
  msg : Str
  success : Bool
  deriving DecidableEq

namespace SocketRet

def fresh : SocketRet := ⟨[], false⟩

def succeeded : SocketRet := { fresh with success := true }

def failed (text : String) (number : Int) : SocketRet :=
  { fresh with msg := text.toList ++ (toString number).toList }

end SocketRet

structure Client where
  ip : Str
  sockfd : SOCKET
  port : UInt16
  isConnected : Bool
  deriving DecidableEq

/-- What a call of `Send` returned, and `errno` after it. -/
structure Sent where
  numBytesSent : Int
  errno : Int
  deriving DecidableEq

def Client.sendMsg (client : Client) (msg : List Byte) (sent : Sent) : SocketRet :=
  if client.sockfd ≠ invalidSocket then
    if sent.numBytesSent < 0 then
      .failed "Error: send() failed: " sent.errno
    else if sent.numBytesSent.toNat < msg.length then
      { SocketRet.fresh with
        msg := "Only ".toList ++ (toString sent.numBytesSent).toList ++ " bytes out of ".toList ++
          (toString msg.length).toList ++ " was sent to client".toList }
    else .succeeded
  else .succeeded

structure TcpServer where
  sockfd : SOCKET
  fds : Finset SOCKET
  stop : Bool
  clients : Table ClientHandle Client
  kernel : Kernel
  deriving DecidableEq

/-- What the calls of `start` return, in their order, and `errno` after the one that fails. -/
structure StartCalls where
  initResult : Int
  socket : SOCKET
  reuseAddr : Int
  rcvBuf : Int
  sndBuf : Int
  bind : Int
  listen : Int
  errno : Int
  deriving DecidableEq

namespace TcpServer

def init (kernel : Kernel) : TcpServer := ⟨invalidSocket, ∅, false, ∅, kernel⟩

/-- A failing call leaves the new socket in `m_sockfd`. -/
def start (calls : StartCalls) (server : TcpServer) : TcpServer × SocketRet :=
  if calls.initResult ≠ 0 then
    (server, .failed "Error: Socket initialization failed: " calls.initResult)
  else if calls.socket = invalidSocket then
    ({ server with sockfd := calls.socket }, .failed "Error: Socket creation failed: " calls.errno)
  else
    let server := { server with sockfd := calls.socket, kernel := server.kernel.socket calls.socket }
    if calls.reuseAddr < 0 then
      (server, .failed "Error: SetSockOpt(SO_REUSEADDR) failed: " calls.errno)
    else if calls.rcvBuf < 0 then
      (server, .failed "Error: SetSockOpt(SO_RCVBUF) failed: " calls.errno)
    else if calls.sndBuf < 0 then
      (server, .failed "Error: SetSockOpt(SO_SNDBUF) failed: " calls.errno)
    else if calls.bind = -1 then
      (server, .failed "BInd error: " calls.errno)
    else if calls.listen = -1 then
      (server, .failed "Error: listen() failed: " calls.errno)
    else ({ server with fds := {server.sockfd} }, .succeeded)

def deleteClient (handle : ClientHandle) (server : TcpServer) : TcpServer × Bool :=
  match server.clients.lookup handle with
  | some client =>
      ({ server with
          kernel := server.kernel.close client.sockfd
          fds := server.fds.erase client.sockfd
          clients := server.clients.erase handle }, true)
  | none => (server, false)

/-- The clients are visited in the given order, up to the first whose message is not sent. -/
def sendBcast (msg : List Byte) (server : TcpServer) : List (ClientHandle × Sent) → SocketRet
  | [] => .succeeded
  | (handle, sent) :: rest =>
      match server.clients.lookup handle with
      | some client =>
          let clientRet := client.sendMsg msg sent
          if clientRet.success then sendBcast msg server rest else clientRet
      | none => sendBcast msg server rest

def sendClientMessage (clientId : ClientHandle) (msg : List Byte) (sent : Sent) (server : TcpServer) :
    SocketRet :=
  match server.clients.lookup clientId with
  | some client => client.sendMsg msg sent
  | none =>
      { SocketRet.fresh with
        msg := "Error: Client ".toList ++ (toString clientId).toList ++ " not found".toList }

def getClientInfo (clientId : ClientHandle) (server : TcpServer) : Option (Str × UInt16 × Bool) :=
  (server.clients.lookup clientId).map fun client => (client.ip, client.port, client.isConnected)

/-- The part of `finish` after the thread has been joined. -/
def closeSockets (server : TcpServer) : TcpServer :=
  let kernel := server.clients.entries.foldl (fun kernel client => kernel.close client.2.sockfd)
    server.kernel
  let kernel := if server.sockfd ≠ invalidSocket then kernel.close server.sockfd else kernel
  { server with kernel := kernel, sockfd := invalidSocket, clients := ∅ }

def markDisconnected (fd : SOCKET) (server : TcpServer) : TcpServer :=
  { server with clients := server.clients.modify fd fun client => { client with isConnected := false } }

def addClient (clientfd : SOCKET) (ip : Str) (port : UInt16) (server : TcpServer) : TcpServer :=
  { server with clients := server.clients.emplace clientfd ⟨ip, clientfd, port, true⟩ }

def findMaxFd (server : TcpServer) : Int :=
  server.clients.entries.foldl (fun maxfd client => max maxfd client.2.sockfd) server.sockfd + 1

/-- A start that succeeds watches the new socket; one that fails may leave it behind, open. -/
theorem start_cases (calls : StartCalls) (server : TcpServer) :
    (server.start calls).2.success = true ∧ calls.socket ≠ invalidSocket ∧
        (server.start calls).1 = { server with
          sockfd := calls.socket, kernel := server.kernel.socket calls.socket, fds := {calls.socket} } ∨
      (server.start calls).2.success = false ∧
        ((server.start calls).1 = server ∨
          (server.start calls).1 = { server with sockfd := invalidSocket } ∨
          calls.socket ≠ invalidSocket ∧ (server.start calls).1 = { server with
            sockfd := calls.socket, kernel := server.kernel.socket calls.socket }) := by
  unfold start
  split_ifs with initFailed socketFailed
  · exact .inr ⟨rfl, .inl rfl⟩
  · exact .inr ⟨rfl, .inr (.inl (by rw [socketFailed]))⟩
  -- The five calls on the new socket differ in their texts only.
  · exact .inr ⟨rfl, .inr (.inr ⟨socketFailed, rfl⟩)⟩
  · exact .inr ⟨rfl, .inr (.inr ⟨socketFailed, rfl⟩)⟩
  · exact .inr ⟨rfl, .inr (.inr ⟨socketFailed, rfl⟩)⟩
  · exact .inr ⟨rfl, .inr (.inr ⟨socketFailed, rfl⟩)⟩
  · exact .inr ⟨rfl, .inr (.inr ⟨socketFailed, rfl⟩)⟩
  · exact .inl ⟨rfl, socketFailed, rfl⟩

theorem deleteClient_of_lookup {server : TcpServer} {handle : ClientHandle} {client : Client}
    (found : server.clients.lookup handle = some client) :
    server.deleteClient handle =
      ({ server with
          kernel := server.kernel.close client.sockfd
          fds := server.fds.erase client.sockfd
          clients := server.clients.erase handle }, true) := by
  simp only [deleteClient, found]

theorem deleteClient_of_not_mem {server : TcpServer} {handle : ClientHandle}
    (absent : handle ∉ server.clients) : server.deleteClient handle = (server, false) := by
  simp only [deleteClient, AList.lookup_eq_none.mpr absent]

theorem le_foldl_max (clients : List (Sigma fun _ : ClientHandle => Client)) (maxfd : Int) :
    maxfd ≤ clients.foldl (fun maxfd client => max maxfd client.2.sockfd) maxfd ∧
      ∀ client ∈ clients,
        client.2.sockfd ≤ clients.foldl (fun maxfd client => max maxfd client.2.sockfd) maxfd := by
  induction clients generalizing maxfd with
  | nil => exact ⟨le_refl maxfd, by simp⟩
  | cons first rest ih =>
      obtain ⟨grows, passes⟩ := ih (max maxfd first.2.sockfd)
      refine ⟨(le_max_left _ _).trans grows, fun client member => ?_⟩
      rcases List.mem_cons.mp member with rfl | member
      · exact (le_max_right _ _).trans grows
      · exact passes client member

theorem sockfd_lt_findMaxFd (server : TcpServer) : server.sockfd < server.findMaxFd :=
  Int.lt_add_one_of_le (le_foldl_max _ _).1

theorem client_lt_findMaxFd {server : TcpServer} {handle : ClientHandle} {client : Client}
    (found : server.clients.lookup handle = some client) : client.sockfd < server.findMaxFd :=
  Int.lt_add_one_of_le ((le_foldl_max _ _).2 ⟨handle, client⟩ (AList.mem_lookup_iff.mp found))

end TcpServer

end ZmqPlayground
