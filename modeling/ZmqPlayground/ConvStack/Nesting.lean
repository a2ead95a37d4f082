import ZmqPlayground.ConvStack.Throwing
import ZmqPlayground.Library.Locks

/-! The two mutexes of a converting stack.

`AddConversion` and `RemoveConversion` hold `ConvStack::m_mutex` while `Subscribe` and
`Unsubscribe` take `ZmqStack::m_mutex`, which threads that call these two directly take
alone. An exception of the socket releases what is held on its way out. The publisher's
calls all succeed.
-/

set_option autoImplicit false

namespace ZmqPlayground

open Library Library.Runs Library.Locking

namespace ConvStack

inductive Mutex where
  | conv
  | base
  deriving DecidableEq

/-- What `ConvStack::m_mutex` guards: the map, and the order of what is published. -/
structure Converting where
  map : ConversionMap
  published : List Message

def Converting.publish (topic msg : Str) (converting : Converting) : Converting :=
  { converting with published := converting.published ++ [.publication topic msg] }

abbrev Guarded : Mutex → Type
  | .conv => Converting
  | .base => ZmqStack

inductive Request where
  | onReceivedMessage (msgs : Message)
  | call (call : Call) (option : SocketCall)
  deriving DecidableEq

inductive Assignment where
  | assign (subTopic : Str) (pubTopics : List Str)
  | erase (subTopic : Str)
  deriving DecidableEq

def Converting.assign (converting : Converting) : Assignment → Converting
  | .assign subTopic pubTopics => { converting with map := converting.map.insert subTopic pubTopics }
  | .erase subTopic => { converting with map := converting.map.erase subTopic }

def Call.inner : Call → ZmqStack.Op
  | .subscribe topic | .addConversion topic _ => .subscribe topic
  | .unsubscribe topic | .removeConversion topic => .unsubscribe topic

def Call.outer : Call → Option Assignment
  | .addConversion subTopic pubTopics => some (.assign subTopic pubTopics)
  | .removeConversion subTopic => some (.erase subTopic)
  | .subscribe _ | .unsubscribe _ => none

def change (option : SocketCall) (stack : ZmqStack) : ZmqStack.Op → ZmqStack × SocketCall
  | .subscribe topic => stack.subscribe option topic
  | .unsubscribe topic => stack.unsubscribe option topic

inductive Point where
  | acquiring (request : Request)
  | finding (topic msg : Str)
  | publishing (msg : Str) (topics : List Str)
  | nesting (op : ZmqStack.Op) (option : SocketCall) (last : Assignment)
  | changing (op : ZmqStack.Op) (option : SocketCall) (outer : Option Assignment)
  | unnesting (outcome : SocketCall) (outer : Option Assignment)
  | assigning (last : Assignment)
  | unlocking
  | returning
  deriving DecidableEq

namespace Point

def find (topic msg : Str) (converting : Converting) : Converting × Point :=
  match converting.map.lookup topic with
  | some _ =>
      let (topics, map) := converting.map.index topic
      ({ converting with map }, .publishing msg topics)
  | none => (converting, .unlocking)

/-- The guards unlock in the reverse order of the locking, also when the socket has thrown. -/
def act : Point → Act Mutex Guarded Point
  | .acquiring (.onReceivedMessage msgs) =>
      .acquires .conv (match ConvStack.onReceivedMessage.eval msgs.frames with
        | some (.converts topic msg) => .finding topic msg
        | _ => .unlocking)
  | .acquiring (.call call option) =>
      match call.outer with
      | some last => .acquires .conv (.nesting call.inner option last)
      | none => .acquires .base (.changing call.inner option none)
  | .finding topic msg => .works fun data =>
      let (converting, next) := find topic msg (data .conv)
      (Function.update data .conv converting, next)
  | .publishing msg (topic :: topics) => .works fun data =>
      (Function.update data .conv (Converting.publish topic msg (data .conv)), .publishing msg topics)
  | .publishing _ [] => .releases .conv .returning
  | .nesting op option last => .acquires .base (.changing op option (some last))
  | .changing op option outer => .works fun data =>
      let (base, outcome) := change option (data .base) op
      (Function.update data .base base, .unnesting outcome outer)
  | .unnesting outcome outer =>
      .releases .base (match outer, outcome with
        | some last, .done => .assigning last
        | some _, .throws => .unlocking
        | none, _ => .returning)
  | .assigning last => .works fun data =>
      (Function.update data .conv (Converting.assign (data .conv) last), .unlocking)
  | .unlocking => .releases .conv .returning
  | .returning => .ends

def holds : Point → List Mutex
  | .acquiring _ | .returning => []
  | .finding _ _ | .publishing _ _ | .nesting _ _ _ | .assigning _ | .unlocking => [.conv]
  | .changing _ _ (some _) | .unnesting _ (some _) => [.base, .conv]
  | .changing _ _ none | .unnesting _ none => [.base]

def complete : Point → Bool
  | .acquiring _ | .nesting _ _ _ => false
  | _ => true

def size : Point → ℕ × ℕ
  | .acquiring _ => (7, 0)
  | .nesting _ _ _ => (6, 0)
  | .changing _ _ _ => (5, 0)
  | .unnesting _ _ => (4, 0)
  | .assigning _ | .finding _ _ => (3, 0)
  | .publishing _ topics => (2, topics.length)
  | .unlocking => (1, 0)
  | .returning => (0, 0)

end Point

def Mutex.rank : Mutex → ℕ
  | .conv => 0
  | .base => 1

theorem confined_update {lock : Mutex} {locks : List Mutex} (member : lock ∈ locks)
    (change : Guarded lock → Guarded lock) :
    Confined locks fun data : ∀ lock, Guarded lock => Function.update data lock (change (data lock)) where
  frame data other outside := Function.update_of_ne (fun same : other = lock => outside (same ▸ member)) _ _
  reads data other same inner inside := by
    by_cases here : inner = lock
    · subst here
      simp only [Function.update_self, same inner inside]
    · simp only [Function.update_of_ne here, same inner inside]

theorem works_update (lock : Mutex) (here : Point) (held : lock ∈ here.holds) (complete : here.complete = true)
    (work : Guarded lock → Guarded lock × Point)
    (kept : ∀ guarded, (work guarded).2.complete = true ∧ (work guarded).2.holds = here.holds ∧
      Prod.Lex (· < ·) (· < ·) (work guarded).2.size here.size) :
    here.complete = true ∧
      Confined here.holds (fun data : ∀ lock, Guarded lock => Function.update data lock (work (data lock)).1) ∧
      (∀ data other : ∀ lock, Guarded lock, (∀ lock ∈ here.holds, data lock = other lock) →
        (work (data lock)).2 = (work (other lock)).2) ∧
      ∀ data : ∀ lock, Guarded lock, (work (data lock)).2.complete = true ∧ (work (data lock)).2.holds = here.holds ∧
        Prod.Lex (· < ·) (· < ·) (work (data lock)).2.size here.size :=
  ⟨complete, confined_update held fun guarded => (work guarded).1, fun _ _ same => by rw [same lock held],
    fun data => kept (data lock)⟩

theorem find_kept (topic msg : Str) (converting : Converting) :
    (Point.find topic msg converting).2.complete = true ∧ (Point.find topic msg converting).2.holds = [.conv] ∧
      Prod.Lex (· < ·) (· < ·) (Point.find topic msg converting).2.size (3, 0) := by
  rw [Point.find]
  split
  · exact ⟨rfl, rfl, .left _ _ (by decide)⟩
  · exact ⟨rfl, rfl, .left _ _ (by decide)⟩

/-- The operations under the two mutexes, of which `ConvStack::m_mutex` is taken first. -/
def locking : Locking Mutex Guarded Request Point where
  enter := .acquiring
  act := Point.act
  holds := Point.holds
  complete := Point.complete
  rank := Mutex.rank
  depth := 2
  less := InvImage (Prod.Lex (· < ·) (· < ·)) Point.size
  bounded lock := by cases lock <;> decide
  ascending here := by
    cases here with
    | changing _ _ outer | unnesting _ outer => cases outer <;> simp [Point.holds, Mutex.rank]
    | _ => simp [Point.holds]
  founded := InvImage.wf _ (WellFounded.prod_lex wellFounded_lt wellFounded_lt)
  enters _ := ⟨rfl, rfl⟩
  acquires {here lock next} found := by
    cases here with
    | acquiring request =>
        refine ⟨rfl, ?_⟩
        cases request with
        | onReceivedMessage msgs =>
            simp only [Point.act, eval_onReceivedMessage] at found
            cases found
            exact ⟨rfl, .left _ _ (by decide)⟩
        | call call option =>
            simp only [Point.act] at found
            split at found <;> cases found
            · exact ⟨rfl, .left _ _ (by decide)⟩
            · exact ⟨rfl, .left _ _ (by decide)⟩
    | nesting op option last =>
        cases found
        exact ⟨rfl, rfl, .left _ _ (by decide)⟩
    | publishing msg topics => cases topics <;> cases found
    | _ => cases found
  releases {here lock next} found := by
    cases here with
    | acquiring request => cases request with
        | onReceivedMessage => cases found
        | call call => cases call <;> cases found
    | publishing msg topics =>
        cases topics with
        | cons => cases found
        | nil =>
            cases found
            exact ⟨rfl, rfl, rfl, .left _ _ (by decide)⟩
    | unnesting outcome outer =>
        simp only [Point.act] at found
        split at found <;> cases found
        all_goals exact ⟨rfl, rfl, rfl, .left _ _ (by decide)⟩
    | unlocking =>
        cases found
        exact ⟨rfl, rfl, rfl, .left _ _ (by decide)⟩
    | _ => cases found
  works {here effect} found := by
    cases here with
    | acquiring request => cases request with
        | onReceivedMessage => cases found
        | call call => cases call <;> cases found
    | finding topic msg =>
        cases found
        exact works_update .conv (.finding topic msg) (.head _) rfl (Point.find topic msg) (find_kept topic msg)
    | publishing msg topics =>
        cases topics with
        | nil => cases found
        | cons topic topics =>
            cases found
            exact works_update .conv (.publishing msg (topic :: topics)) (.head _) rfl
              (fun converting => (Converting.publish topic msg converting, .publishing msg topics))
              fun _ => ⟨rfl, rfl, .right _ (Nat.lt_succ_self _)⟩
    | changing op option outer =>
        cases found
        have member : Mutex.base ∈ (Point.changing op option outer).holds := by
          cases outer <;> exact .head _
        refine works_update .base _ member rfl
          (fun base => ((change option base op).1, .unnesting (change option base op).2 outer)) fun _ => ?_
        cases outer with
        | none => exact ⟨rfl, rfl, .left _ _ (by decide)⟩
        | some => exact ⟨rfl, rfl, .left _ _ (by decide)⟩
    | assigning last =>
        cases found
        exact works_update .conv (.assigning last) (.head _) rfl
          (fun converting => (Converting.assign converting last, .unlocking)) fun _ => ⟨rfl, rfl, .left _ _ (by decide)⟩
    | _ => cases found
  ends {here} found := by
    cases here with
    | acquiring request => cases request with
        | onReceivedMessage => cases found
        | call call => cases call <;> cases found
    | publishing msg topics => cases topics <;> cases found
    | returning => exact ⟨rfl, rfl⟩
    | _ => cases found

def assembled (data : ∀ lock, Guarded lock) : ConvStack :=
  { toZmqStack := data .base, conversionMap := Converting.map (data .conv) }

def published (data : ∀ lock, Guarded lock) : List Message := Converting.published (data .conv)

def guarded (stack : ConvStack) : ∀ lock, Guarded lock
  | .conv => (⟨stack.conversionMap, []⟩ : Converting)
  | .base => stack.toZmqStack

def Request.apply (before : ConvStack × List Message) : Request → ConvStack × List Message
  | .onReceivedMessage msgs =>
      let (stack, publications) := before.1.convert (route msgs).1 (route msgs).2
      (stack, before.2 ++ publications)
  | .call operation option => ((before.1.perform option operation).1, before.2)

theorem outcome_unlocking (data : ∀ lock, Guarded lock) : locking.outcome data .unlocking = data :=
  (outcome_releases rfl data).trans (outcome_ends rfl data)

theorem outcome_locking_publishing (data : ∀ lock, Guarded lock) (msg : Str) (topics : List Str) :
    assembled (locking.outcome data (.publishing msg topics)) = assembled data ∧
      published (locking.outcome data (.publishing msg topics)) = published data ++ ZmqStack.publish topics msg := by
  induction topics generalizing data with
  | nil =>
      have ended : locking.outcome data (.publishing msg []) = data :=
        (outcome_releases rfl data).trans (outcome_ends rfl data)
      rw [ended]
      exact ⟨rfl, (List.append_nil _).symm⟩
  | cons topic topics ih =>
      rw [outcome_works rfl]
      obtain ⟨same, sent⟩ := ih (Function.update data .conv (Converting.publish topic msg (data .conv)))
      exact ⟨same, sent.trans (List.append_assoc _ [_] _)⟩

theorem outcome_finding (data : ∀ lock, Guarded lock) (topic msg : Str) :
    assembled (locking.outcome data (.finding topic msg)) = ((assembled data).convert topic msg).1 ∧
      published (locking.outcome data (.finding topic msg)) =
        published data ++ ((assembled data).convert topic msg).2 := by
  rw [outcome_works rfl, convert]
  simp only [Point.find]
  cases found : (assembled data).conversionMap.lookup topic with
  | none =>
      have looked : (data .conv).map.lookup topic = none := found
      rw [looked]
      simp only [outcome_unlocking, Function.update_eq_self, List.append_nil, and_self]
  | some topics =>
      have looked : (data .conv).map.lookup topic = some topics := found
      rw [looked, ConversionMap.index_of_lookup looked, ConversionMap.index_of_lookup found]
      simp only
      exact outcome_locking_publishing _ msg topics

/-- The map is changed only after the socket has done what it was asked to do. -/
theorem outcome_changing (data : ∀ lock, Guarded lock) (op : ZmqStack.Op) (option : SocketCall)
    (outer : Option Assignment) :
    locking.outcome data (.changing op option outer) =
      let after := Function.update data .base (change option (data .base) op).1
      match outer, (change option (data .base) op).2 with
      | some last, .done => Function.update after .conv (Converting.assign (after .conv) last)
      | _, _ => after := by
  rw [outcome_works rfl, outcome_releases rfl]
  cases outer with
  | none => exact outcome_ends rfl _
  | some last =>
      cases outcome : (change option (data .base) op).2 with
      | done =>
          simp only
          rw [outcome_works rfl, outcome_unlocking]
      | throws => exact outcome_unlocking _

theorem perform_call (data : ∀ lock, Guarded lock) (operation : Call) (option : SocketCall) :
    locking.perform data (.call operation option) =
      locking.outcome data (.changing operation.inner option operation.outer) := by
  rw [Locking.perform]
  cases operation with
  | subscribe | unsubscribe => exact outcome_acquires rfl data
  | addConversion | removeConversion => exact (outcome_acquires rfl data).trans (outcome_acquires rfl data)

theorem perform_eq_apply (data : ∀ lock, Guarded lock) (request : Request) :
    (assembled (locking.perform data request), published (locking.perform data request)) =
      request.apply (assembled data, published data) := by
  cases request with
  | onReceivedMessage msgs =>
      have acquired : locking.act (.acquiring (.onReceivedMessage msgs)) =
          .acquires .conv (.finding (route msgs).1 (route msgs).2) := by
        simp only [locking, Point.act, eval_onReceivedMessage]
      rw [Locking.perform, show locking.enter _ = Point.acquiring _ from rfl, outcome_acquires acquired]
      obtain ⟨same, sent⟩ := outcome_finding data (route msgs).1 (route msgs).2
      rw [same, sent]
      rfl
  | call operation option =>
      rw [perform_call, outcome_changing]
      cases operation with
      | subscribe | unsubscribe => cases option <;> rfl
      | addConversion | removeConversion => cases option <;> rfl

variable {Thread : Type} [DecidableEq Thread]

def serially (stack : ConvStack) (requests : List Request) : ConvStack × List Message :=
  requests.foldl Request.apply (stack, [])

omit [DecidableEq Thread] in
theorem performed_eq_serially (stack : ConvStack) (requests : List (Thread × Request)) :
    (assembled (locking.performed (guarded stack) requests), published (locking.performed (guarded stack) requests)) =
      stack.serially (requests.map (·.2)) := by
  induction requests using List.reverseRecOn with
  | nil => rfl
  | append_singleton requests last ih =>
      rw [performed_append, List.map_append, serially, List.foldl_append, ← serially, ← ih]
      exact perform_eq_apply _ _

section Runs
variable {stack : ConvStack} {final : State Thread Mutex Guarded Request Point}
  {steps : List (Taken (State Thread Mutex Guarded Request Point) (Label Thread Request) (Event Thread Request))}

/-- Deliveries, `AddConversion` and `RemoveConversion` under both mutexes, and direct calls to `Subscribe`
and `Unsubscribe`, any of which may throw, come to the same calls one at a time, in the order in which they
were given their last mutex. -/
theorem nested_serial (run : Run locking.step (initial (guarded stack)) steps final) :
    (assembled (final.finished locking), published (final.finished locking)) =
        stack.serially ((order (trace steps)).map (·.2)) ∧
      (final.calls = ∅ → final.finished locking = final.data ∧
        (order (trace steps)).Perm (returns (trace steps))) := by
  rw [(run_serial run).finished]
  refine ⟨performed_eq_serially stack _, fun idle => ?_⟩
  obtain ⟨same, all⟩ := run_performed run idle
  exact ⟨same.symm, all⟩

/-- The mutexes are never waited for in a circle, and every call returns, also when the socket throws. -/
theorem nested_returns (run : Run locking.step (initial (guarded stack)) steps final) :
    (∀ thread ∈ final.calls, ∃ other, Relation.ReflTransGen (Waits locking final) thread other ∧
        (locking.step final (.goes other)).isSome) ∧
      Acc (Goes locking) final :=
  run_returns run

end Runs

def plain : ConvStack := .create (fun _ => true) [] [] ∅

def adding : Request := .call (.addConversion "topic1".toList ["topic2".toList]) .done

def delivering : Request := .onReceivedMessage (.publication "topic1".toList "hello".toList)

def unsubscribing : Request := .call (.unsubscribe "topic1".toList) .throws

/-- A direct call comes between the subscription and the end of `AddConversion`, and a delivery after it. -/
theorem nested_serial_mixed : ∃ steps, ∃ final : State ℕ Mutex Guarded Request Point,
    Run locking.step (initial (guarded plain)) steps final ∧
      (assembled final.data, published final.data) = plain.serially [adding, unsubscribing, delivering] := by
  let start : State ℕ Mutex Guarded Request Point := initial (guarded plain)
  have computed : (exec locking.step start ([.call 0 adding, .call 1 delivering, .call 2 unsubscribing] ++
      [0, 0, 0, 0, 2, 2, 2, 0, 2, 0, 0, 1, 1, 1, 1, 1].map .goes)).any (fun (steps, final) =>
        final.calls.entries.isEmpty &&
          decide ((order (trace steps)).map (·.2) = [adding, unsubscribing, delivering])) = true := by
    decide +kernel
  obtain ⟨steps, final, run, computed⟩ := exists_run_of_exec computed
  simp only [Bool.and_eq_true, List.isEmpty_iff, decide_eq_true_eq] at computed
  obtain ⟨idle, ordered⟩ := computed
  obtain ⟨same, settled⟩ := nested_serial run
  rw [ordered, (settled (AList.ext idle)).1] at same
  exact ⟨steps, final, run, same⟩

/-- `AddConversion` waits for a direct call, and a delivery for `AddConversion`. -/
theorem nested_returns_waiting : ∃ steps, ∃ final : State ℕ Mutex Guarded Request Point,
    Run locking.step (initial (guarded plain)) steps final ∧ Waits locking final 1 0 ∧ Waits locking final 0 2 ∧
      (∃ other, Relation.ReflTransGen (Waits locking final) 1 other ∧ (locking.step final (.goes other)).isSome) ∧
      Acc (Goes locking) final := by
  let start : State ℕ Mutex Guarded Request Point := initial (guarded plain)
  have computed : (exec locking.step start ([.call 0 adding, .call 1 delivering, .call 2 unsubscribing] ++
      [2, 0].map .goes)).any (fun (_, final) => decide (final.owner .conv = some 0 ∧ final.owner .base = some 2 ∧
        final.calls.lookup 0 = some (adding, .nesting (.subscribe "topic1".toList) .done
          (.assign "topic1".toList ["topic2".toList])) ∧
        final.calls.lookup 1 = some (delivering, .acquiring delivering))) = true := by
    decide +kernel
  obtain ⟨steps, final, run, computed⟩ := exists_run_of_exec computed
  obtain ⟨conv, base, nesting, acquiring⟩ := of_decide_eq_true computed
  obtain ⟨goes, ends⟩ := nested_returns run
  exact ⟨steps, final, run, ⟨_, _, _, _, acquiring, rfl, conv⟩, ⟨_, _, _, _, nesting, rfl, base⟩,
    goes 1 (Table.mem_of_lookup acquiring), ends⟩

end ConvStack

end ZmqPlayground
