import ZmqPlayground.Common.ZmqStack
import ZmqPlayground.Library.Runs

/-! The sender: messages of one frame, and a new connection after every ten of them. -/

set_option autoImplicit false

namespace ZmqPlayground

/-- The PUSH socket's connections, one for each `connect` that is still in force. -/
structure Sender where
  endpoint : Str
  connected : Multiset Str
  count : UInt32
  deriving DecidableEq

/-- What the two calls of a reconnect do; the second is not made when the first throws. -/
structure Reconnect where
  disconnect : SocketCall
  connect : SocketCall
  deriving DecidableEq

namespace Sender

/-- The constructor contains an exception of `connect`. -/
def create (connect : SocketCall) (endpoint : Str) : Sender :=
  match connect with
  | .done => ⟨endpoint, {endpoint}, 0⟩
  | .throws => ⟨endpoint, 0, 0⟩

def reconnect (calls : Reconnect) (sender : Sender) : Sender :=
  match calls with
  | ⟨.throws, _⟩ => sender
  | ⟨.done, .throws⟩ => { sender with connected := sender.connected.erase sender.endpoint }
  | ⟨.done, .done⟩ => { sender with
      connected := sender.endpoint ::ₘ sender.connected.erase sender.endpoint }

def sendMsg (calls : Reconnect) (appMsg : Str) (sender : Sender) : Message × Sender :=
  let sender := { sender with count := sender.count + 1 }
  let sender := if sender.count % 10 = 0 then { sender with count := 0 }.reconnect calls else sender
  (⟨[appMsg], List.cons_ne_nil _ _⟩, sender)

structure Send where
  appMsg : Str
  calls : Reconnect
  deriving DecidableEq

def send (sender : Sender) (send : Send) : Sender := (sender.sendMsg send.calls send.appMsg).2

def after (endpoint : Str) (sends : List Send) : Sender := sends.foldl Sender.send (create .done endpoint)

theorem after_concat (endpoint : Str) (sends : List Send) (last : Send) :
    after endpoint (sends ++ [last]) = (after endpoint sends).send last := by
  rw [after, List.foldl_append]
  rfl

/-- The count is reset before the reconnect, whatever becomes of that. -/
theorem send_eq (sender : Sender) (last : Send) :
    sender.send last =
      if (sender.count + 1) % 10 = 0 then { sender with count := 0 }.reconnect last.calls
      else { sender with count := sender.count + 1 } := by
  unfold send sendMsg
  dsimp only

theorem reconnect_endpoint (sender : Sender) (calls : Reconnect) :
    (sender.reconnect calls).endpoint = sender.endpoint := by
  unfold reconnect
  split <;> rfl

theorem reconnect_count (sender : Sender) (calls : Reconnect) : (sender.reconnect calls).count = sender.count := by
  unfold reconnect
  split <;> rfl

theorem after_endpoint (endpoint : Str) (sends : List Send) : (after endpoint sends).endpoint = endpoint := by
  induction sends using List.reverseRecOn with
  | nil => rfl
  | append_singleton sends last ih =>
      rw [after_concat, send_eq]
      split
      · rw [reconnect_endpoint, ih]
      · exact ih

theorem toNat_succ {count : UInt32} {n : ℕ} (counted : count.toNat = n % 10) :
    (count + 1).toNat = n % 10 + 1 := by
  rw [UInt32.toNat_add, counted, UInt32.toNat_one]
  omega

theorem succ_mod_ten_iff {count : UInt32} {n : ℕ} (counted : count.toNat = n % 10) :
    (count + 1) % 10 = 0 ↔ (n + 1) % 10 = 0 := by
  rw [← UInt32.toNat_inj, UInt32.toNat_mod, toNat_succ counted]
  change (n % 10 + 1) % 10 = 0 ↔ _
  omega

theorem after_count (endpoint : Str) (sends : List Send) :
    (after endpoint sends).count.toNat = sends.length % 10 := by
  -- Every tenth message starts the count over.
  induction sends using List.reverseRecOn with
  | nil => rfl
  | append_singleton sends last ih =>
      rw [after_concat, send_eq, List.length_append, List.length_singleton]
      split
      · rename_i tenth
        rw [succ_mod_ten_iff ih] at tenth
        rw [reconnect_count, tenth, UInt32.toNat_zero]
      · rename_i other
        rw [succ_mod_ten_iff ih] at other
        rw [toNat_succ ih]
        omega

theorem send_connected_iff {sender : Sender} {endpoint : Str} (last : Send)
    (own : sender.endpoint = endpoint ∧ sender.connected = {endpoint}) :
    (sender.send last).connected = {endpoint} ↔
      ((sender.count + 1) % 10 = 0 → last.calls ≠ ⟨.done, .throws⟩) := by
  obtain ⟨rfl, connected⟩ := own
  rw [send_eq]
  split
  · rename_i due
    simp only [due, forall_const]
    obtain ⟨appMsg, disconnect, connect⟩ := last
    cases disconnect <;> cases connect
    all_goals simp [reconnect, connected]
  · rename_i undue
    simp [connected, undue]

/-- At the start of every send there is one connection, and the sends that reconnect are every tenth. -/
def KeepsConnected (endpoint : Str) (sends : List Send) : Prop :=
  ∀ past last rest, sends = past ++ last :: rest →
    (after endpoint past).connected = {endpoint} ∧
      (after endpoint past).send last =
        if (past.length + 1) % 10 = 0 then { after endpoint past with count := 0 }.reconnect last.calls
        else { after endpoint past with count := (after endpoint past).count + 1 }

theorem after_send (endpoint : Str) (past : List Send) (last : Send) :
    (after endpoint past).send last =
      if (past.length + 1) % 10 = 0 then { after endpoint past with count := 0 }.reconnect last.calls
      else { after endpoint past with count := (after endpoint past).count + 1 } := by
  have due := succ_mod_ten_iff (after_count endpoint past)
  rw [send_eq]
  simp only [due]

/-- The connection is there at the start of every send exactly if no tenth message that another one
follows has a reconnect which disconnects and then fails to connect. -/
theorem keepsConnected_iff (endpoint : Str) (sends : List Send) :
    KeepsConnected endpoint sends ↔
      ∀ past last next rest, sends = past ++ last :: next :: rest → (past.length + 1) % 10 = 0 →
        last.calls ≠ ⟨.done, .throws⟩ := by
  constructor
  · rintro keeps past last next rest rfl tenth
    -- What the tenth send leaves is what the next one finds.
    have now := (keeps past last (next :: rest) rfl).1
    have afterwards := (keeps (past ++ [last]) next rest (by simp)).1
    rw [after_concat, send_connected_iff last ⟨after_endpoint endpoint past, now⟩] at afterwards
    exact afterwards ((succ_mod_ten_iff (after_count endpoint past)).mpr tenth)
  · intro sound past last rest split
    apply And.intro _ (after_send endpoint past last)
    -- On the sends so far, each of which is followed by another.
    induction past using List.reverseRecOn generalizing last rest with
    | nil => rfl
    | append_singleton past earlier ih =>
        rw [List.append_assoc, List.singleton_append] at split
        have before := ih earlier (last :: rest) split
        rw [after_concat, send_connected_iff earlier ⟨after_endpoint endpoint past, before⟩]
        intro due
        exact sound past earlier last rest split ((succ_mod_ten_iff (after_count endpoint past)).mp due)

/-- A socket that is asked to disconnect from where it is not connected throws, so a sender that has
lost its connection stays without one. -/
theorem lost_for_good {sender : Sender} (lost : sender.connected = 0) (sends : List Send)
    (throws : ∀ last ∈ sends, last.calls.disconnect = .throws) :
    (sends.foldl Sender.send sender).connected = 0 := by
  induction sends generalizing sender with
  | nil => exact lost
  | cons last sends ih =>
      apply ih
      · have first := throws last List.mem_cons_self
        rw [send_eq]
        split
        · obtain ⟨appMsg, disconnect, connect⟩ := last
          cases first
          exact lost
        · exact lost
      · exact fun later member => throws later (List.mem_cons_of_mem _ member)

/-- The tenth reconnect fails after its first call: the eleventh message finds no connection. -/
theorem not_keepsConnected :
    let fine := Send.mk "hello".toList ⟨.done, .done⟩
    let failing := Send.mk "hello".toList ⟨.done, .throws⟩
    let sends := List.replicate 9 fine ++ [failing, fine]
    (after "tcp://zmq-stack:9210".toList (sends.take 10)).connected = 0 ∧
      ¬ KeepsConnected "tcp://zmq-stack:9210".toList sends := by
  intro fine failing sends
  have lost : (after "tcp://zmq-stack:9210".toList (sends.take 10)).connected = 0 := by decide
  apply And.intro lost
  intro keeps
  have eleventh := (keeps (sends.take 10) fine [] rfl).1
  rw [lost] at eleventh
  cases congrArg Multiset.card eleventh

end Sender

end ZmqPlayground
