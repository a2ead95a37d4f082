import ZmqPlayground.Common.Broadcasts
import ZmqPlayground.Library.Streams

/-! What a client gets of the messages that are sent to it.

A `Send` may take a part of a message only. The operation that made it says so and
sends nothing more, but nothing keeps the rest of the message: the next operation
begins with its own.
-/

set_option autoImplicit false

namespace ZmqPlayground

open Library
open Library.Runs
open Library.Streams

def written (msg : List Byte) (result : SendResult msg) : Write Byte where
  message := msg
  accepted := result.val.numBytesSent.toNat
  bounded := by
    have := result.property
    omega

def Sending.write (sending : Sending) : Write Byte := written sending.msg sending.result

def Sending.partly (sending : Sending) : SocketRet :=
  { SocketRet.fresh with
    msg := "Only ".toList ++ (toString sending.result.val.numBytesSent).toList ++ " bytes out of ".toList ++
      (toString sending.msg.length).toList ++ " was sent to client".toList }

namespace TcpServer

/-- The operation returns what its torn message has led to, and has sent nothing after it. -/
def TellsTorn (sendings : List Sending) (ret : SocketRet) : Prop :=
  ∀ sending ∈ sendings, sending.write.Torn → ret = sending.partly ∧ sendings.getLast? = some sending

theorem client_tellsTorn (client : Client) (kernel : Kernel) (handle : ClientHandle)
    (expected : Option Object) (msg : List Byte) (result : SendResult msg) :
    TellsTorn (client.sendings kernel handle expected msg result) (client.sendMsg msg result) := by
  unfold TellsTorn Client.sendings Client.sendMsg
  split
  · intro sending member torn
    obtain rfl := List.mem_singleton.mp member
    obtain ⟨begun, short⟩ := torn
    simp only [Sending.write, written] at begun short
    rw [if_neg (by omega), if_pos short]
    exact ⟨rfl, rfl⟩
  · simp

theorem sendBcast_tellsTorn (server : TcpServer) (msg : List Byte)
    (results : List (ClientHandle × SendResult msg)) :
    TellsTorn (server.sendings msg results)
      (server.sendBcast msg (results.map fun (handle, result) => (handle, result.val))) := by
  induction results with
  | nil => simp [TellsTorn, sendings]
  | cons first rest ih =>
      obtain ⟨handle, result⟩ := first
      rw [sendings, List.map_cons, sendBcast]
      cases found : server.clients.lookup handle with
      | none => simpa using ih
      | some client =>
          have own := client_tellsTorn client server.kernel handle (server.kernel.object client.sockfd) msg result
          by_cases success : (client.sendMsg msg result).success = true
          · simp only [success, if_true]
            intro sending member torn
            rcases List.mem_append.mp member with here | later
            · -- The client's message went through, so it was not torn.
              rw [(own sending here torn).1] at success
              cases success
            · obtain ⟨told, last⟩ := ih sending later torn
              refine ⟨told, ?_⟩
              rw [List.getLast?_append, last]
              rfl
          · simpa [success] using own

section Connection
variable {server : TcpServer} {arriving : Option SOCKET} {connection : ℕ} {handle : ClientHandle} {msg : List Byte}

def writesOn (connection : ℕ) (sendings : List Sending) : List (Write Byte) :=
  (sendings.filter fun sending => sending.object = some (.connection connection)).map Sending.write

theorem writesOn_append (first rest : List Sending) :
    writesOn connection (first ++ rest) = writesOn connection first ++ writesOn connection rest := by
  rw [writesOn, List.filter_append, List.map_append, ← writesOn, ← writesOn]

theorem writesOn_client (table : Registered server arriving) (expected : Option Object)
    (object : server.kernel.object handle = some (.connection connection)) {client : Client}
    (found : server.clients.lookup handle = some client) (result : SendResult msg) :
    writesOn connection (client.sendings server.kernel handle expected msg result) = [written msg result] := by
  have stored := table.stored found
  have valid : client.sockfd ≠ invalidSocket := stored ▸ (table.connected (Table.mem_of_lookup found)).1
  rw [Client.sendings, if_pos valid]
  simp [writesOn, stored, object, Sending.write]

theorem writesOn_other (table : Registered server arriving) (expected : Option Object)
    (object : server.kernel.object handle = some (.connection connection)) {other : ClientHandle}
    (different : other ≠ handle) {client : Client} (found : server.clients.lookup other = some client)
    (result : SendResult msg) :
    writesOn connection (client.sendings server.kernel other expected msg result) = [] := by
  -- Under another descriptor there is another connection.
  have elsewhere : server.kernel.object client.sockfd ≠ some (.connection connection) := by
    rw [table.stored found]
    exact fun same => different (server.kernel.unique _ _ _ same object)
  rw [Client.sendings]
  split <;> simp [writesOn, elsewhere]

theorem writesOn_absent (table : Registered server arriving)
    (object : server.kernel.object handle = some (.connection connection))
    {results : List (ClientHandle × SendResult msg)} (absent : handle ∉ results.map Prod.fst) :
    writesOn connection (server.sendings msg results) = [] := by
  induction results with
  | nil => rfl
  | cons first rest ih =>
      obtain ⟨other, result⟩ := first
      rw [List.map_cons, List.mem_cons, not_or] at absent
      rw [sendings]
      cases found : server.clients.lookup other with
      | none => exact ih absent.2
      | some client =>
          simp only [writesOn_append, writesOn_other table _ object (Ne.symm absent.1) found, List.nil_append]
          split
          · exact ih absent.2
          · rfl

/-- A broadcast hands its message to a client once, if all that it visits before have taken it whole. -/
theorem writesOn_broadcast (table : Registered server arriving) (member : handle ∈ server.clients)
    (object : server.kernel.object handle = some (.connection connection))
    {front back : List (ClientHandle × SendResult msg)} {result : SendResult msg}
    (distinct : ((front ++ (handle, result) :: back).map Prod.fst).Nodup)
    (passes : ∀ visit ∈ front, visit.2.val.numBytesSent = msg.length) :
    writesOn connection (server.sendings msg (front ++ (handle, result) :: back)) = [written msg result] := by
  induction front with
  | nil =>
      obtain ⟨client, found⟩ := Table.exists_lookup member
      rw [List.nil_append, List.map_cons, List.nodup_cons] at distinct
      simp only [List.nil_append, sendings, found, writesOn_append, writesOn_client table _ object found]
      split
      · rw [writesOn_absent table object distinct.1, List.append_nil]
      · rfl
  | cons first front ih =>
      obtain ⟨other, earlier⟩ := first
      rw [List.cons_append, List.map_cons, List.nodup_cons] at distinct
      have different : other ≠ handle := by
        rintro rfl
        exact distinct.1 (by simp)
      rw [List.forall_mem_cons] at passes
      rw [List.cons_append, sendings]
      cases found : server.clients.lookup other with
      | none => exact ih distinct.2 passes.2
      | some client =>
          have success : (client.sendMsg msg earlier).success = true :=
            (client.sendMsg_success msg earlier).mpr (.inr passes.1)
          simp only [writesOn_append, writesOn_other table _ object different found, List.nil_append, success,
            if_true]
          exact ih distinct.2 passes.2

end Connection

end TcpServer

namespace Senders

def writes (connection : ℕ) (events : List Event) : List (Write Byte) :=
  TcpServer.writesOn connection (sendings events)

theorem writes_append (connection : ℕ) (first rest : List Event) :
    writes connection (first ++ rest) = writes connection first ++ writes connection rest := by
  rw [writes, sendings_append, TcpServer.writesOn_append, ← writes, ← writes]

theorem writes_sends (connection : ℕ) (sendings : List Sending) (ret : SocketRet) :
    writes connection [.sends sendings ret] = TcpServer.writesOn connection sendings := by
  rw [writes, Senders.sendings, List.flatMap_singleton, Event.sendings]

theorem step_tellsTorn {before after : Senders} {label : Label} {events : List Event}
    (stepped : step before label = some (after, events)) {sendings : List Sending} {ret : SocketRet}
    (emitted : .sends sendings ret ∈ events) : TcpServer.TellsTorn sendings ret := by
  cases step_changed stepped with
  | system =>
      obtain ⟨_, -, same⟩ := List.mem_map.mp emitted
      cases same
  | sendBcast =>
      cases List.mem_singleton.mp emitted
      exact TcpServer.sendBcast_tellsTorn _ _ _
  | finds => cases emitted
  | misses =>
      cases List.mem_singleton.mp emitted
      exact fun _ member => absurd member List.not_mem_nil
  | sends =>
      cases List.mem_singleton.mp emitted
      exact TcpServer.client_tellsTorn _ _ _ _ _ _

/-- A client has its connection, and a thread may call an operation. -/
structure Open (senders : Senders) (handle : ClientHandle) (connection : ℕ) (thread : Thread) : Prop where
  alive : senders.system.terminated = false
  member : handle ∈ senders.system.server.clients
  object : senders.system.server.kernel.object handle = some (.connection connection)
  free : senders.Free thread

instance (senders : Senders) (handle : ClientHandle) (connection : ℕ) (thread : Thread) :
    Decidable (Open senders handle connection thread) :=
  decidable_of_iff (senders.system.terminated = false ∧ handle ∈ senders.system.server.clients ∧
    senders.system.server.kernel.object handle = some (.connection connection) ∧ senders.Free thread)
    ⟨fun ⟨alive, member, object, free⟩ => ⟨alive, member, object, free⟩,
      fun ⟨alive, member, object, free⟩ => ⟨alive, member, object, free⟩⟩

section Later
variable {senders : Senders} {handle : ClientHandle} {connection : ℕ} {thread : Thread}

theorem Open.message (here : Open senders handle connection thread) (followed : Followed senders)
    (msg : List Byte) (result : SendResult msg) :
    ∃ between sendings ret, step senders (.lookUp thread handle msg) = some (between, []) ∧
      step between (.send thread msg result) = some (senders, [.sends sendings ret]) ∧
      TcpServer.writesOn connection sendings = [written msg result] := by
  obtain ⟨client, found⟩ := Table.exists_lookup here.member
  let lookup : Lookup := ⟨handle, client, senders.system.server.kernel.object client.sockfd, msg⟩
  refine ⟨{ senders with looked := senders.looked.insert thread lookup },
    client.sendings senders.system.server.kernel handle lookup.object msg result, client.sendMsg msg result,
    ?_, ?_, ?_⟩
  · simp only [step]
    rw [if_pos ⟨here.alive, here.free⟩, found]
  · simp only [step, AList.lookup_insert, lookup]
    rw [if_pos ⟨here.alive, trivial⟩, Table.erase_insert here.free.1]
  · exact TcpServer.writesOn_client followed.table _ here.object found result

theorem Open.broadcast (here : Open senders handle connection thread) (followed : Followed senders)
    {msg : List Byte} {front back : List (ClientHandle × SendResult msg)} {result : SendResult msg}
    (visits : ((front ++ (handle, result) :: back).map Prod.fst).Perm senders.system.server.clients.keys)
    (passes : ∀ visit ∈ front, visit.2.val.numBytesSent = msg.length) :
    ∃ sendings ret, step senders (.sendBcast thread msg (front ++ (handle, result) :: back)) =
        some (senders, [.sends sendings ret]) ∧ TcpServer.writesOn connection sendings = [written msg result] := by
  refine ⟨_, _, if_pos ⟨here.alive, here.free, visits⟩, ?_⟩
  exact TcpServer.writesOn_broadcast followed.table here.member here.object
    (visits.nodup_iff.mpr senders.system.server.clients.nodupKeys) passes

end Later

/-- What a connection has been sent by some time is followed by the beginning of the next message that `Send`
takes, whatever has been torn before. -/
def Appends (connection : ℕ) (past : List Event) (sendings : List Sending) (ret : SocketRet) (msg : List Byte)
    (result : SendResult msg) : Prop :=
  stream (writes connection (past ++ [.sends sendings ret])) =
    stream (writes connection past) ++ (written msg result).taken

theorem appends_of_writesOn {connection : ℕ} (past : List Event) {sendings : List Sending} (ret : SocketRet)
    {msg : List Byte} {result : SendResult msg}
    (one : TcpServer.writesOn connection sendings = [written msg result]) :
    Appends connection past sendings ret msg result := by
  rw [Appends, writes_append, stream_append, writes_sends, one]
  simp [stream]

/-- An operation that tears a message fails with what it has sent of it, and sends no more. In every state of
a run a further message can be sent to a client, by either operation, and what `Send` takes of it comes
directly behind what there is, a torn part or not. So a connection gets complete messages and a part of one at
the end while nothing is taken after a torn message; else the bytes of a later one stand behind a part. -/
theorem stream_of_sends {descriptors : List SOCKET} {steps : List (Taken Senders Label Event)}
    {final : Senders} (run : Run step (boot descriptors) steps final) (connection : ℕ) :
    (∀ sendings ret, .sends sendings ret ∈ trace steps → ∀ sending ∈ sendings, sending.write.Torn →
      ret = sending.partly ∧ ret.success = false ∧ sendings.getLast? = some sending) ∧
    (∀ handle thread, Open final handle connection thread → ∀ msg (result : SendResult msg),
      (∃ between sendings ret, step final (.lookUp thread handle msg) = some (between, []) ∧
        step between (.send thread msg result) = some (final, [.sends sendings ret]) ∧
        Appends connection (trace steps) sendings ret msg result) ∧
      ∀ front back : List (ClientHandle × SendResult msg),
        ((front ++ (handle, result) :: back).map Prod.fst).Perm final.system.server.clients.keys →
        (∀ visit ∈ front, visit.2.val.numBytesSent = msg.length) →
        ∃ sendings ret, step final (.sendBcast thread msg (front ++ (handle, result) :: back)) =
            some (final, [.sends sendings ret]) ∧
          Appends connection (trace steps) sendings ret msg result) ∧
    (Intact (writes connection (trace steps)) →
      ∃ (complete : List (Write Byte)) (part : List Byte), complete.Sublist (writes connection (trace steps)) ∧
        (∀ write ∈ complete, write.accepted = write.message.length) ∧
        stream (writes connection (trace steps)) = (complete.map Write.message).flatten ++ part ∧
        (part = [] ∨ ∃ write ∈ writes connection (trace steps), write.Torn ∧ part = write.taken)) ∧
    (¬ Intact (writes connection (trace steps)) →
      ∃ front torn between later back,
        writes connection (trace steps) = front ++ torn :: (between ++ later :: back) ∧ torn.Torn ∧
          0 < later.accepted ∧
          stream (writes connection (trace steps)) = stream front ++ torn.taken ++ later.taken ++ stream back) := by
  have followed := run_followed run
  refine ⟨fun sendings ret emitted sending member torn => ?_, fun handle thread here msg result => ⟨?_, ?_⟩,
    stream_of_intact, continued_of_not_intact⟩
  · obtain ⟨taken, step, emitted⟩ := List.mem_flatMap.mp emitted
    obtain ⟨_, _, _, _, _, stepped, _⟩ := run.reached step
    obtain ⟨told, last⟩ := step_tellsTorn stepped emitted sending member torn
    exact ⟨told, told ▸ rfl, last⟩
  · obtain ⟨between, sendings, ret, looks, sends, one⟩ := here.message followed msg result
    exact ⟨between, sendings, ret, looks, sends, appends_of_writesOn _ ret one⟩
  · intro front back visits passes
    obtain ⟨sendings, ret, sends, one⟩ := here.broadcast followed visits passes
    exact ⟨sendings, ret, sends, appends_of_writesOn _ ret one⟩

def sendingBoth (first second : SendResult [1, 2]) : List Label :=
  (.start (System.listening 3) [] :: System.acceptPass 4 0).map .system ++
    [.sendBcast (.other 0) [1, 2] [(4, first)], .lookUp (.other 0) 4 [1, 2], .send (.other 0) [1, 2] second]

/-- The second message is torn, the caller is told, and a third message can be sent after it. -/
theorem stream_of_sends_torn : ∃ steps final, Run step (boot [0, 1, 2]) steps final ∧
    (∃ (complete : List (Write Byte)) (part : List Byte),
      [1, 2, 1] = (complete.map Write.message).flatten ++ part ∧
      ∀ write ∈ complete, write.accepted = write.message.length) ∧
    (∃ sendings ret, .sends sendings ret ∈ trace steps ∧ sendings ≠ [] ∧ ret.success = false) ∧
    ∃ sendings ret, step final (.sendBcast (.other 0) [7] [(4, ⟨⟨1, 0⟩, by decide⟩)]) =
        some (final, [.sends sendings ret]) ∧
      stream (writes 0 (trace steps ++ [.sends sendings ret])) = [1, 2, 1, 7] := by
  have computed : (exec step (boot [0, 1, 2])
      (sendingBoth ⟨⟨2, 0⟩, by decide⟩ ⟨⟨1, 0⟩, by decide⟩)).any (fun (steps, final) =>
        decide (Intact (writes 0 (trace steps))) && (decide (stream (writes 0 (trace steps)) = [1, 2, 1]) &&
          ((sendings (trace steps)).any (fun sending => decide sending.write.Torn) &&
            (decide (Open final 4 0 (.other 0)) && decide (final.system.server.clients.keys = [4]))))) = true := by
    decide +kernel
  obtain ⟨steps, final, run, checked⟩ := exists_run_of_exec computed
  simp only [Bool.and_eq_true, decide_eq_true_eq, List.any_eq_true] at checked
  obtain ⟨intact, same, ⟨sending, sent, torn⟩, here, keys⟩ := checked
  obtain ⟨told, later, whole, -⟩ := stream_of_sends run 0
  obtain ⟨complete, part, -, full, split, -⟩ := whole intact
  refine ⟨steps, final, run, ⟨complete, part, same ▸ split, full⟩, ?_, ?_⟩
  · obtain ⟨event, emitted, member⟩ := List.mem_flatMap.mp sent
    cases event with
    | server => cases member
    | sends sendings ret =>
        exact ⟨sendings, ret, emitted, List.ne_nil_of_mem member, (told _ _ emitted sending member torn).2.1⟩
  · obtain ⟨sendings, ret, sends, appends⟩ :=
      (later 4 (.other 0) here [7] ⟨⟨1, 0⟩, by decide⟩).2 [] [] (by rw [keys]; rfl) (by simp)
    refine ⟨sendings, ret, sends, appends.trans ?_⟩
    rw [same]
    rfl

/-- A message follows the torn one, and its bytes follow the part that was taken. -/
theorem torn_continued : ∃ steps final, Run step (boot [0, 1, 2]) steps final ∧
    ¬ Intact (writes 0 (trace steps)) ∧ stream (writes 0 (trace steps)) = [1, 1, 2] := by
  have computed : (exec step (boot [0, 1, 2])
      (sendingBoth ⟨⟨1, 0⟩, by decide⟩ ⟨⟨2, 0⟩, by decide⟩)).any (fun (steps, _) =>
        decide (¬ Intact (writes 0 (trace steps))) &&
          decide (stream (writes 0 (trace steps)) = [1, 1, 2])) = true := by
    decide +kernel
  obtain ⟨steps, final, run, checked⟩ := exists_run_of_exec computed
  simp only [Bool.and_eq_true, decide_eq_true_eq] at checked
  exact ⟨steps, final, run, checked⟩

end Senders

end ZmqPlayground
