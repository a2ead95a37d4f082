import ZmqPlayground.ConvStack.ConvStack
import ZmqPlayground.Library.Monitor

/-! The converting stack between its delivery threads and the threads that configure it.

Deliveries and changes of the map hold `m_mutex` from their first line to their last,
so they act as if they were made one at a time, on a map from topics to lists.
-/

set_option autoImplicit false

namespace ZmqPlayground

open Library Library.Runs

namespace ConvStack

inductive Operation where
  | onReceivedMessage (msgs : Message)
  | addConversion (subTopic : Str) (pubTopics : List Str)
  | removeConversion (subTopic : Str)
  deriving DecidableEq

/-- The next access of an operation to the data it shares, with its local variables. -/
inductive Place where
  | finding (topic msg : Str)
  | indexing (topic msg : Str)
  | publishing (topic msg : Str) (topics : List Str)
  | subscribing (subTopic : Str) (pubTopics : List Str)
  | assigning (subTopic : Str) (pubTopics : List Str)
  | unsubscribing (subTopic : Str)
  | erasing (subTopic : Str)
  | returning
  deriving DecidableEq

structure Publication where
  topic : Str
  msgs : Message
  deriving DecidableEq

def Operation.enter : Operation → Place
  | .onReceivedMessage msgs =>
      match ConvStack.onReceivedMessage.eval msgs.frames with
      | some (.converts topic msg) => .finding topic msg
      -- A message has a first frame, and a second one where it is read.
      | _ => .returning
  | .addConversion subTopic pubTopics => .subscribing subTopic pubTopics
  | .removeConversion subTopic => .unsubscribing subTopic

/-- One access: `find`, `operator[]`, each message sent, each call of the socket and each change of
the map are separate steps. All socket calls succeed. -/
def work (stack : ConvStack) : Place → Option (ConvStack × Place × Option Publication)
  | .finding topic msg =>
      match stack.conversionMap.lookup topic with
      | some _ => some (stack, .indexing topic msg, none)
      | none => some (stack, .returning, none)
  | .indexing topic msg =>
      let (topics, map) := stack.conversionMap.index topic
      some ({ stack with conversionMap := map }, .publishing topic msg topics, none)
  | .publishing topic msg (first :: topics) =>
      some (stack, .publishing topic msg topics, some ⟨topic, .publication first msg⟩)
  | .publishing _ _ [] => none
  | .subscribing subTopic pubTopics =>
      let (base, _) := stack.subscribe .done subTopic
      some ({ base with conversionMap := stack.conversionMap }, .assigning subTopic pubTopics, none)
  | .assigning subTopic pubTopics =>
      some ({ stack with conversionMap := stack.conversionMap.insert subTopic pubTopics }, .returning,
        none)
  | .unsubscribing subTopic =>
      let (base, _) := stack.unsubscribe .done subTopic
      some ({ base with conversionMap := stack.conversionMap }, .erasing subTopic, none)
  | .erasing subTopic =>
      some ({ stack with conversionMap := stack.conversionMap.erase subTopic }, .returning, none)
  | .returning => none

def remaining (stack : ConvStack) : Place → ℕ
  | .finding topic _ => (stack.outputs topic).length + 3
  | .indexing topic _ => (stack.outputs topic).length + 2
  | .publishing _ _ topics => topics.length + 1
  | .subscribing _ _ => 2
  | .assigning _ _ => 1
  | .unsubscribing _ => 2
  | .erasing _ => 1
  | .returning => 0

theorem remaining_work (stack : ConvStack) (place : Place) (after : ConvStack) (next : Place)
    (output : Option Publication) (worked : stack.work place = some (after, next, output)) :
    after.remaining next < stack.remaining place := by
  cases place with
  | finding topic msg =>
      simp only [work] at worked
      split at worked <;> cases worked <;> simp [remaining]
  | indexing topic msg =>
      cases worked
      simp only [remaining, outputs]
      cases stack.conversionMap.lookup topic <;> simp
  | publishing topic msg topics =>
      cases topics with
      | nil => cases worked
      | cons first topics =>
          cases worked
          simp [remaining]
  | returning => cases worked
  | subscribing | assigning | unsubscribing | erasing =>
      cases worked
      simp [remaining]

def monitor : Monitor ConvStack Operation Place Publication where
  enter := Operation.enter
  work := work
  size := remaining
  shrinks := remaining_work

/-- What the map of a stack is for: the list a topic is converted to. -/
abbrev Conversions := Str → Option (List Str)

def conversions (stack : ConvStack) : Conversions :=
  fun topic => stack.conversionMap.lookup topic

namespace Operation

def apply (conversions : Conversions) : Operation → Conversions
  | .onReceivedMessage _ => conversions
  | .addConversion subTopic pubTopics => Function.update conversions subTopic (some pubTopics)
  | .removeConversion subTopic => Function.update conversions subTopic none

/-- A message is published once for each topic of the list its topic is mapped to, in order. -/
def publishes (conversions : Conversions) : Operation → List Publication
  | .onReceivedMessage msgs =>
      ((conversions (route msgs).1).getD []).map fun topic =>
        ⟨(route msgs).1, .publication topic (route msgs).2⟩
  | .addConversion _ _ | .removeConversion _ => []

end Operation

def publications : Conversions → List Operation → List Message
  | _, [] => []
  | conversions, operation :: operations =>
      (operation.publishes conversions).map (·.msgs) ++
        publications (operation.apply conversions) operations

variable {Thread : Type}

/-- The same, with the thread that takes the lock for an operation and releases it after. -/
def serial : Conversions → List (Thread × Operation) →
    List (Monitor.Event Thread Operation Publication)
  | _, [] => []
  | conversions, (thread, operation) :: operations =>
      Monitor.block thread operation (operation.publishes conversions) ++
        serial (operation.apply conversions) operations

theorem outputs_serial (conversions : Conversions) (operations : List (Thread × Operation)) :
    (Monitor.outputs (serial conversions operations)).map (·.msgs) =
      publications conversions (operations.map (·.2)) := by
  induction operations generalizing conversions with
  | nil => rfl
  | cons first operations ih =>
      rw [serial, Monitor.outputs_append, Monitor.outputs_block, List.map_append, ih]
      rfl

theorem outcome_publishing (stack : ConvStack) (topic msg : Str) (topics : List Str) :
    monitor.outcome stack (.publishing topic msg topics) =
      (stack, (ZmqStack.publish topics msg).map (Publication.mk topic)) := by
  induction topics with
  | nil => exact Monitor.outcome_ended rfl
  | cons first topics ih =>
      rw [Monitor.outcome_worked rfl, ih]
      rfl

theorem perform_onReceivedMessage (stack : ConvStack) (msgs : Message) :
    monitor.perform stack (.onReceivedMessage msgs) =
      ((stack.convert (route msgs).1 (route msgs).2).1,
        (stack.convert (route msgs).1 (route msgs).2).2.map (Publication.mk (route msgs).1)) := by
  have enters : monitor.enter (.onReceivedMessage msgs) = .finding (route msgs).1 (route msgs).2 := by
    simp only [monitor, Operation.enter, eval_onReceivedMessage]
  rw [Monitor.perform, enters]
  generalize route msgs = routed
  obtain ⟨topic, msg⟩ := routed
  rw [convert]
  cases found : stack.conversionMap.lookup topic with
  | none =>
      have finds : monitor.work stack (.finding topic msg) = some (stack, .returning, none) := by
        simp only [monitor, work, found]
      rw [Monitor.outcome_worked finds, Monitor.outcome_ended rfl]
      rfl
  | some topics =>
      have finds : monitor.work stack (.finding topic msg) = some (stack, .indexing topic msg, none) := by
        simp only [monitor, work, found]
      rw [Monitor.outcome_worked finds, Monitor.outcome_worked rfl, outcome_publishing]
      rfl

theorem perform_addConversion (stack : ConvStack) (subTopic : Str) (pubTopics : List Str) :
    monitor.perform stack (.addConversion subTopic pubTopics) =
      ((stack.addConversion .done subTopic pubTopics).1, []) := by
  rw [Monitor.perform, Monitor.outcome_worked rfl, Monitor.outcome_worked rfl,
    Monitor.outcome_ended rfl]
  rfl

theorem perform_removeConversion (stack : ConvStack) (subTopic : Str) :
    monitor.perform stack (.removeConversion subTopic) =
      ((stack.removeConversion .done subTopic).1, []) := by
  rw [Monitor.perform, Monitor.outcome_worked rfl, Monitor.outcome_worked rfl,
    Monitor.outcome_ended rfl]
  rfl

theorem perform_refines (stack : ConvStack) (operation : Operation) :
    (monitor.perform stack operation).1.conversions = operation.apply stack.conversions ∧
      (monitor.perform stack operation).2 = operation.publishes stack.conversions := by
  cases operation with
  | onReceivedMessage msgs =>
      rw [perform_onReceivedMessage, convert_eq]
      exact ⟨rfl, List.map_map⟩
  | addConversion subTopic pubTopics =>
      rw [perform_addConversion]
      refine ⟨funext fun topic => ?_, rfl⟩
      rw [Operation.apply, Function.update_apply]
      exact Table.lookup_insert _ _ _ _
  | removeConversion subTopic =>
      rw [perform_removeConversion]
      refine ⟨funext fun topic => ?_, rfl⟩
      rw [Operation.apply, Function.update_apply]
      exact Table.lookup_erase _ _ _

theorem serial_conversions (stack : ConvStack) (operations : List (Thread × Operation)) :
    monitor.serial stack operations = serial stack.conversions operations := by
  induction operations generalizing stack with
  | nil => rfl
  | cons first operations ih =>
      obtain ⟨thread, operation⟩ := first
      obtain ⟨applied, published⟩ := perform_refines stack operation
      rw [Monitor.serial, serial, ih, applied, published]

/-- The operation does not stand where it publishes for a topic or is about to map it. -/
def Place.Leaves (key : Str) : Place → Prop
  | .indexing topic _ | .publishing topic _ _ => topic ≠ key
  | .subscribing subTopic _ | .assigning subTopic _ => subTopic ≠ key
  | .finding _ _ | .unsubscribing _ | .erasing _ | .returning => True

theorem work_leaves {stack after : ConvStack} {place next : Place} {output : Option Publication}
    {key : Str} (absent : stack.conversionMap.lookup key = none) (leaves : place.Leaves key)
    (worked : stack.work place = some (after, next, output)) :
    after.conversionMap.lookup key = none ∧ next.Leaves key ∧
      ∀ publication ∈ output, publication.topic ≠ key := by
  cases place with
  | finding topic msg =>
      simp only [work] at worked
      split at worked
      · rename_i found
        cases worked
        refine ⟨absent, ?_, by simp⟩
        -- The topic of the message was found in the map, and the key is not there.
        rintro rfl
        rw [absent] at found
        cases found
      · cases worked
        exact ⟨absent, trivial, by simp⟩
  | indexing topic msg =>
      cases worked
      -- `operator[]` enters a topic that is missing, but that topic is not the key.
      refine ⟨?_, leaves, by simp⟩
      split
      · exact absent
      · rw [Table.lookup_insert, if_neg (Ne.symm leaves)]
        exact absent
  | publishing topic msg topics =>
      cases topics with
      | nil => cases worked
      | cons first topics =>
          cases worked
          refine ⟨absent, leaves, fun publication emitted => ?_⟩
          cases emitted
          exact leaves
  | subscribing subTopic pubTopics =>
      cases worked
      exact ⟨absent, leaves, by simp⟩
  | assigning subTopic pubTopics =>
      cases worked
      exact ⟨(Table.lookup_insert _ _ _ _).trans (if_neg (Ne.symm leaves) ▸ absent), trivial, by simp⟩
  | unsubscribing subTopic =>
      cases worked
      exact ⟨absent, trivial, by simp⟩
  | erasing subTopic =>
      cases worked
      refine ⟨?_, trivial, by simp⟩
      rw [Table.lookup_erase, absent, ite_self]
  | returning => cases worked

section Threads
variable [DecidableEq Thread]

/-- A topic is not mapped, and nobody inside an operation publishes for it or is about to map it. -/
structure Unmapped (key : Str) (threads : Monitor.State Thread ConvStack Operation Place) : Prop where
  absent : threads.shared.conversionMap.lookup key = none
  leaves : ∀ thread operation place,
    threads.calls.lookup thread = some (.inside operation place) → place.Leaves key

variable {key : Str} {before after : Monitor.State Thread ConvStack Operation Place}
  {label : Monitor.Label Thread Operation} {events : List (Monitor.Event Thread Operation Publication)}

theorem Unmapped.moved (unmapped : Unmapped key before)
    (moved : monitor.Moved before label after events)
    (unopened : ∀ event ∈ events, ¬ ∃ thread pubTopics,
      event = .locked thread (.addConversion key pubTopics)) :
    Unmapped key after ∧ ∀ event ∈ events, ¬ ∃ thread msgs, event = .emitted thread ⟨key, msgs⟩ := by
  obtain ⟨absent, leaves⟩ := unmapped
  cases moved with
  | called idle =>
      refine ⟨⟨absent, fun other operation place found => ?_⟩, by simp⟩
      rw [Table.lookup_insert] at found
      split at found
      · cases found
      · exact leaves _ _ _ found
  | @locked thread operation free waiting =>
      refine ⟨⟨absent, fun other operation place found => ?_⟩, by simp⟩
      rw [Table.lookup_insert] at found
      split at found
      · cases found
        cases operation with
        | onReceivedMessage msgs =>
            simp only [monitor, Operation.enter, eval_onReceivedMessage, Place.Leaves]
        | addConversion subTopic pubTopics =>
            -- Only an `AddConversion` of the topic itself could come to map it.
            rintro rfl
            exact unopened _ (List.mem_singleton_self _) ⟨thread, pubTopics, rfl⟩
        | removeConversion subTopic => trivial
      · exact leaves _ _ _ found
  | worked inside found =>
      rename_i output
      obtain ⟨absent, left, elsewhere⟩ := work_leaves absent (leaves _ _ _ inside) found
      refine ⟨⟨absent, fun other operation place found => ?_⟩, ?_⟩
      · rw [Table.lookup_insert] at found
        split at found
        · cases found
          exact left
        · exact leaves _ _ _ found
      · rintro event emitted ⟨thread, msgs, rfl⟩
        obtain ⟨publication, member, same⟩ := List.mem_map.mp emitted
        cases same
        exact elsewhere _ (Option.mem_toList.mp member) rfl
  | unlocked inside ended =>
      refine ⟨⟨absent, fun other operation place found => ?_⟩, by simp⟩
      rw [Table.lookup_erase] at found
      split at found
      · cases found
      · exact leaves _ _ _ found

variable {stack : ConvStack} {steps : List (Taken (Monitor.State Thread ConvStack Operation Place)
  (Monitor.Label Thread Operation) (Monitor.Event Thread Operation Publication))}
  {final : Monitor.State Thread ConvStack Operation Place}

/-- Nothing is published for a topic from the end of `RemoveConversion` until `AddConversion`. -/
theorem silent_until_added (run : Run monitor.step (Monitor.initial stack) steps final)
    {past middle rest : List (Monitor.Event Thread Operation Publication)} {remover publisher : Thread}
    {msgs : Message}
    (split : trace steps = past ++ .unlocked remover (.removeConversion key) ::
      (middle ++ .emitted publisher ⟨key, msgs⟩ :: rest)) :
    ∃ adder pubTopics, .locked adder (.addConversion key pubTopics) ∈ middle := by
  have added : ∃ event ∈ middle, ∃ thread pubTopics,
      event = .locked thread (.addConversion key pubTopics) := by
    refine run.until Monitor.events_short
      (fun event => ∃ thread, event = .unlocked thread (.removeConversion key)) _
      (fun event => ∃ thread msgs, event = .emitted thread ⟨key, msgs⟩) (Unmapped key) ?_ ?_ ?_ split
      ⟨_, rfl⟩ ⟨_, _, rfl⟩
    · rintro event ⟨_, _, rfl⟩ ⟨_, _, same⟩
      cases same
    · rintro steps before label after _ run stepped ⟨thread, rfl⟩
      obtain ⟨⟨stack, performed⟩, nobody⟩ := Monitor.unlocked_performed run stepped
      refine ⟨?_, fun other operation place found => absurd found (nobody _ _ _)⟩
      rw [performed, perform_removeConversion]
      exact (Table.lookup_erase _ _ _).trans (if_pos rfl)
    · exact fun before label after events unmapped stepped unopened =>
        unmapped.moved (Monitor.step_moved stepped) unopened
  obtain ⟨_, member, adder, pubTopics, rfl⟩ := added
  exact ⟨adder, pubTopics, member⟩

/-- Deliveries and changes of the map, interleaved in whatever way, publish what they publish one at
a time in the order in which they take the lock. `due` is what the operation that still has the lock
will do. -/
theorem conversions_serial (run : Run monitor.step (Monitor.initial stack) steps final) :
    (∃ due, trace steps ++ due = serial stack.conversions (Monitor.order (trace steps)) ∧
        (Monitor.outputs (trace steps ++ due)).map (·.msgs) =
          publications stack.conversions ((Monitor.order (trace steps)).map (·.2)) ∧
        (final.mutex = none → due = [])) ∧
      ∀ key past middle rest remover publisher msgs,
        trace steps = past ++ .unlocked remover (.removeConversion key) ::
          (middle ++ .emitted publisher ⟨key, msgs⟩ :: rest) →
        ∃ adder pubTopics, .locked adder (.addConversion key pubTopics) ∈ middle := by
  refine ⟨?_, fun key past middle rest remover publisher msgs split => silent_until_added run split⟩
  obtain ⟨due, same, done⟩ := Monitor.trace_serial run
  rw [serial_conversions] at same
  exact ⟨due, same, by rw [same, outputs_serial], done⟩

end Threads

/-- A conversion is added, and a message of its topic is delivered by another thread. -/
theorem conversions_serial_added : ∃ steps, ∃ final : Monitor.State ℕ ConvStack Operation Place,
    Run monitor.step (Monitor.initial (.create (fun _ => true) [] [] ∅)) steps final ∧
      (Monitor.outputs (trace steps)).map (·.msgs) =
        publications (fun _ => none) [.addConversion "topic1".toList ["topic2".toList],
          .onReceivedMessage (.publication "topic1".toList "hello".toList)] := by
  let add : Operation := .addConversion "topic1".toList ["topic2".toList]
  let deliver : Operation := .onReceivedMessage (.publication "topic1".toList "hello".toList)
  let start : Monitor.State ℕ ConvStack Operation Place :=
    Monitor.initial (.create (fun _ => true) [] [] ∅)
  have computed : (exec monitor.step start [.call 1 add, .call 0 deliver, .lock 1, .work 1, .work 1,
      .unlock 1, .lock 0, .work 0, .work 0, .work 0, .unlock 0]).any (fun (steps, final) =>
        final.mutex == none && decide (Monitor.order (trace steps) = [(1, add), (0, deliver)])) =
          true := by
    decide +kernel
  obtain ⟨steps, final, run, computed⟩ := exists_run_of_exec computed
  simp only [Bool.and_eq_true, beq_iff_eq, decide_eq_true_eq] at computed
  obtain ⟨unowned, ordered⟩ := computed
  obtain ⟨⟨due, _, published, settled⟩, _⟩ := conversions_serial run
  rw [ordered, settled unowned, List.append_nil] at published
  exact ⟨steps, final, run, published⟩

end ConvStack

end ZmqPlayground
