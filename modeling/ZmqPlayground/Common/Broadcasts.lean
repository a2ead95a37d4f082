import ZmqPlayground.Common.Senders
import ZmqPlayground.Library.Scan

/-! Which clients a broadcast reaches.

`sendBcast` leaves its loop over the table at the first client whose message is not
sent. The clients behind it, in whatever order the table has, are not sent anything.
-/

set_option autoImplicit false

namespace ZmqPlayground

open Library
open Library.Scan

def Client.sendCalls (client : Client) (msg : List Byte) : List (SOCKET × List Byte) :=
  if client.sockfd ≠ invalidSocket then [(client.sockfd, msg)] else []

theorem Client.sendMsg_success (client : Client) (msg : List Byte) (result : SendResult msg) :
    (client.sendMsg msg result).success = true ↔
      client.sockfd = invalidSocket ∨ result.val.numBytesSent = msg.length := by
  have bounded := result.property
  unfold Client.sendMsg
  by_cases valid : client.sockfd = invalidSocket
  · simp [valid, SocketRet.succeeded]
  · rw [if_pos valid, or_iff_right valid]
    split_ifs with failed short
    · simp only [SocketRet.failed, SocketRet.fresh, Bool.false_eq_true, false_iff]
      omega
    · simp only [SocketRet.fresh, Bool.false_eq_true, false_iff]
      omega
    · simp only [SocketRet.succeeded, true_iff]
      omega

namespace TcpServer

/-- The calls of `Send` in `sendBcast`, in their order. -/
def sendCalls (msg : List Byte) (server : TcpServer) :
    List (ClientHandle × SendResult msg) → List (SOCKET × List Byte)
  | [] => []
  | (handle, result) :: rest =>
      match server.clients.lookup handle with
      | some client =>
          client.sendCalls msg ++
            if (client.sendMsg msg result).success then sendCalls msg server rest else []
      | none => sendCalls msg server rest

/-- The same calls as those of the runs, there with what the socket refers to. -/
theorem sendings_eq_calls (server : TcpServer) (msg : List Byte) (results : List (ClientHandle × SendResult msg)) :
    (server.sendings msg results).map (fun sending => (sending.object, sending.msg)) =
      (server.sendCalls msg results).map (Prod.map server.kernel.object id) := by
  induction results with
  | nil => rfl
  | cons first rest ih =>
      obtain ⟨handle, result⟩ := first
      rw [sendings, sendCalls]
      cases server.clients.lookup handle with
      | none => exact ih
      | some client =>
          have own : (client.sendings server.kernel handle (server.kernel.object client.sockfd) msg result).map
              (fun sending => (sending.object, sending.msg)) =
                (client.sendCalls msg).map (Prod.map server.kernel.object id) := by
            unfold Client.sendings Client.sendCalls
            split <;> rfl
          simp only [List.map_append, own]
          split
          · rw [ih]
          · rfl

section Broadcast
variable (server : TcpServer) (msg : List Byte)

def succeeds (visit : ClientHandle × SendResult msg) : Bool :=
  match server.clients.lookup visit.1 with
  | some client => (client.sendMsg msg visit.2).success
  | none => true

def calls (handle : ClientHandle) : List (SOCKET × List Byte) :=
  match server.clients.lookup handle with
  | some client => client.sendCalls msg
  | none => []

variable (results : List (ClientHandle × SendResult msg))

theorem sendCalls_eq : server.sendCalls msg results =
    (visited (server.succeeds msg) results).flatMap fun visit => server.calls msg visit.1 := by
  induction results with
  | nil => rfl
  | cons visit rest ih =>
      rw [sendCalls, visited, List.flatMap_cons, succeeds, calls]
      cases server.clients.lookup visit.1 with
      | none => simpa using ih
      | some client =>
          simp only
          split
          · rw [ih]
          · rfl

theorem sendBcast_success :
    (server.sendBcast msg (results.map fun (handle, result) => (handle, result.val))).success =
      results.all (server.succeeds msg) := by
  induction results with
  | nil => rfl
  | cons visit rest ih =>
      rw [List.map_cons, sendBcast, List.all_cons, succeeds]
      cases server.clients.lookup visit.1 with
      | none => simpa using ih
      | some client =>
          cases success : (client.sendMsg msg visit.2).success with
          | true => simpa [success] using ih
          | false => simp [success]

/-- The message is handed to `Send` once for the socket of every client, and the caller is told
whether all of them have taken the whole of it. -/
def ReachesAll : Prop :=
  (server.sendCalls msg results).Perm (server.clients.entries.map fun entry => (entry.2.sockfd, msg)) ∧
    ((server.sendBcast msg (results.map fun (handle, result) => (handle, result.val))).success = true ↔
      ∀ visit ∈ results, visit.2.val.numBytesSent = msg.length)

/-- Every client has a socket, and every client but the last one takes the whole message. -/
def NoneFails : Prop :=
  (∀ entry ∈ server.clients.entries, entry.2.sockfd ≠ invalidSocket) ∧
    ∀ visit ∈ results.dropLast, visit.2.val.numBytesSent = msg.length

instance : Decidable (server.ReachesAll msg results) :=
  inferInstanceAs (Decidable (_ ∧ (_ ↔ _)))

instance : Decidable (server.NoneFails msg results) :=
  inferInstanceAs (Decidable (_ ∧ _))

variable {server msg results}

theorem calls_of_mem {entry : Sigma fun _ : ClientHandle => Client} (member : entry ∈ server.clients.entries) :
    server.calls msg entry.1 = entry.2.sendCalls msg := by
  have found : server.clients.lookup entry.1 = some entry.2 := AList.mem_lookup_iff.mpr member
  rw [calls, found]

theorem forall_visit_iff (visits : (results.map Prod.fst).Perm server.clients.keys) (holds : ClientHandle → Prop) :
    (∀ visit ∈ results, holds visit.1) ↔ ∀ entry ∈ server.clients.entries, holds entry.1 := by
  have same : ∀ handle, handle ∈ results.map Prod.fst ↔ handle ∈ server.clients.entries.map Sigma.fst :=
    fun handle => visits.mem_iff
  constructor
  · intro each entry member
    obtain ⟨visit, visited, equal⟩ := List.mem_map.mp ((same _).mpr (List.mem_map_of_mem member))
    exact equal ▸ each visit visited
  · intro each visit visited
    obtain ⟨entry, member, equal⟩ := List.mem_map.mp ((same _).mp (List.mem_map_of_mem visited))
    exact equal ▸ each entry member

theorem calls_ne_nil_iff (visits : (results.map Prod.fst).Perm server.clients.keys) :
    (∀ visit ∈ results, server.calls msg visit.1 ≠ []) ↔
      ∀ entry ∈ server.clients.entries, entry.2.sockfd ≠ invalidSocket := by
  rw [forall_visit_iff visits fun handle => server.calls msg handle ≠ []]
  apply forall₂_congr
  intro entry member
  rw [calls_of_mem member, Client.sendCalls]
  split <;> simp_all

theorem succeeds_iff (sockets : ∀ entry ∈ server.clients.entries, entry.2.sockfd ≠ invalidSocket)
    (visits : (results.map Prod.fst).Perm server.clients.keys) {visit : ClientHandle × SendResult msg}
    (member : visit ∈ results) :
    server.succeeds msg visit = true ↔ visit.2.val.numBytesSent = msg.length := by
  have registered : visit.1 ∈ server.clients := AList.mem_keys.mpr (visits.subset (List.mem_map_of_mem member))
  obtain ⟨client, found⟩ := Table.exists_lookup registered
  have socket : client.sockfd ≠ invalidSocket := sockets ⟨visit.1, client⟩ (AList.mem_lookup_iff.mp found)
  simp only [succeeds, found]
  rw [Client.sendMsg_success, or_iff_right socket]

theorem sendCalls_perm_iff (visits : (results.map Prod.fst).Perm server.clients.keys) :
    (server.sendCalls msg results).Perm (server.clients.entries.map fun entry => (entry.2.sockfd, msg)) ↔
      (∀ visit ∈ results, server.calls msg visit.1 ≠ []) ∧
        ∀ visit ∈ results.dropLast, server.succeeds msg visit = true := by
  have single : ∀ visit : ClientHandle × SendResult msg, (server.calls msg visit.1).length ≤ 1 := by
    intro visit
    rw [calls]
    split
    · rw [Client.sendCalls]
      split <;> simp
    · simp
  rw [sendCalls_eq]
  constructor
  · intro perm
    have clients : results.length = server.clients.entries.length := by
      simpa [AList.keys, List.keys] using visits.length_eq
    apply (length_visited_iff _ single results).mp
    rw [perm.length_eq, List.length_map, clients]
  · rintro ⟨each, all⟩
    rw [(visited_eq_iff _ _).mpr all]
    have byHandle : (server.clients.entries.map fun entry => (entry.2.sockfd, msg)) =
        server.clients.keys.flatMap (server.calls msg) := by
      rw [AList.keys, List.keys, List.flatMap_map, List.map_eq_flatMap]
      apply List.flatMap_congr
      intro entry member
      have socket := (calls_ne_nil_iff visits).mp each entry member
      rw [calls_of_mem member, Client.sendCalls, if_pos socket]
    rw [byHandle, ← List.flatMap_map]
    exact visits.flatMap_right _

/-- A broadcast reaches every client and says so, exactly if every client has a socket and no client
but the last one in the order of the table takes less than the whole message. -/
theorem sendBcast_reachesAll_iff (server : TcpServer) (msg : List Byte)
    (results : List (ClientHandle × SendResult msg)) (visits : (results.map Prod.fst).Perm server.clients.keys) :
    server.ReachesAll msg results ↔ server.NoneFails msg results := by
  rw [ReachesAll, NoneFails, sendCalls_perm_iff visits, calls_ne_nil_iff visits, and_assoc]
  apply and_congr_right
  intro sockets
  have told : (server.sendBcast msg (results.map fun (handle, result) => (handle, result.val))).success = true ↔
      ∀ visit ∈ results, visit.2.val.numBytesSent = msg.length := by
    rw [sendBcast_success, List.all_eq_true]
    exact forall₂_congr fun visit member => succeeds_iff sockets visits member
  rw [and_iff_left told]
  exact forall₂_congr fun visit member => succeeds_iff sockets visits (List.mem_of_mem_dropLast member)

def twoClients : TcpServer :=
  ((init (.initial [0, 1, 2])).addClient 4 [] 5000).addClient 5 [] 5001

/-- The last client fails: both are sent to, and the caller is told. -/
theorem sendBcast_reachesAll_iff_last :
    twoClients.ReachesAll [7] [(4, ⟨⟨1, 0⟩, by decide⟩), (5, ⟨⟨-1, 104⟩, by decide⟩)] :=
  (sendBcast_reachesAll_iff twoClients [7] [(4, ⟨⟨1, 0⟩, by decide⟩), (5, ⟨⟨-1, 104⟩, by decide⟩)]
    (by decide)).mpr (by decide)

/-- The first client fails: the second one, which could be sent to, is not. -/
theorem first_client_fails :
    (([(4, ⟨⟨-1, 104⟩, by decide⟩), (5, ⟨⟨1, 0⟩, by decide⟩)] :
        List (ClientHandle × SendResult [7])).map Prod.fst).Perm twoClients.clients.keys ∧
      twoClients.sendCalls [7] [(4, ⟨⟨-1, 104⟩, by decide⟩), (5, ⟨⟨1, 0⟩, by decide⟩)] = [(4, [7])] ∧
      ¬ twoClients.ReachesAll [7] [(4, ⟨⟨-1, 104⟩, by decide⟩), (5, ⟨⟨1, 0⟩, by decide⟩)] := by
  decide

end Broadcast

theorem Registered.noneFails_iff {server : TcpServer} {arriving : Option SOCKET} (table : Registered server arriving)
    (msg : List Byte) (results : List (ClientHandle × SendResult msg)) :
    server.NoneFails msg results ↔ ∀ visit ∈ results.dropLast, visit.2.val.numBytesSent = msg.length := by
  apply and_iff_right
  rintro ⟨handle, client⟩ member
  have found : server.clients.lookup handle = some client := AList.mem_lookup_iff.mpr member
  rw [table.stored found]
  exact (table.connected (Table.mem_of_lookup found)).1

end TcpServer

end ZmqPlayground
