import Mathlib.Computability.Language

/-! Sessions under one name, which is given to one connection after another.

The acts under the name are read as a log of sessions: what a session was opened
for, what has been passed on in it and whether it is closed.
-/

set_option autoImplicit false

namespace Library.Sessions

open scoped Computability

inductive Mark where
  | opens
  | passes
  | closes
  deriving DecidableEq

def complete : Language Mark := ({[.opens]} * {[.passes]}∗ * {[.closes]})∗

def begun : Language Mark := complete * ({[.opens]} * {[.passes]}∗)

theorem opens_begun {word : List Mark} (member : word ∈ complete) : word ++ [.opens] ∈ begun := by
  refine Language.append_mem_mul member ?_
  rw [← List.append_nil [Mark.opens]]
  exact Language.append_mem_mul rfl (Language.nil_mem_kstar _)

theorem passes_begun {word : List Mark} (member : word ∈ begun) : word ++ [.passes] ∈ begun := by
  have more : begun * {[Mark.passes]} ≤ begun := by
    calc complete * ({[.opens]} * {[.passes]}∗) * {[.passes]}
        = complete * ({[.opens]} * ({[.passes]}∗ * {[.passes]})) := by simp only [mul_assoc]
      _ ≤ complete * ({[.opens]} * {[.passes]}∗) := by
        gcongr
        exact kstar_mul_le_kstar
  exact more (Language.append_mem_mul member rfl)

theorem closes_complete {word : List Mark} (member : word ∈ begun) : word ++ [.closes] ∈ complete := by
  have more : begun * {[Mark.closes]} ≤ complete := by
    calc complete * ({[.opens]} * {[.passes]}∗) * {[.closes]}
        = complete * ({[.opens]} * {[.passes]}∗ * {[.closes]}) := by simp only [mul_assoc]
      _ ≤ complete := kstar_mul_le_kstar
  exact more (Language.append_mem_mul member rfl)

variable {C D : Type}

/-- What happens under the name; `accepts` gives it to a connection. -/
inductive Act (C D : Type) where
  | accepts (connection : C)
  | opens
  | passes (data : List D)
  | closes

def Act.mark : Act C D → Option Mark
  | .accepts _ => none
  | .opens => some .opens
  | .passes _ => some .passes
  | .closes => some .closes

def marks (acts : List (Act C D)) : List Mark := acts.filterMap Act.mark

def Act.accepted : Act C D → Option C
  | .accepts connection => some connection
  | _ => none

def lastAccepted (acts : List (Act C D)) : Option C := (acts.filterMap Act.accepted).getLast?

def Act.data : Act C D → List D
  | .passes data => data
  | _ => []

def passed (acts : List (Act C D)) : List D := acts.flatMap Act.data

structure Session (C D : Type) where
  connection : Option C
  passed : List D
  closed : Bool

/-- The sessions, the latest first, and the connection the name was given to last. -/
structure Log (C D : Type) where
  accepted : Option C
  sessions : List (Session C D)

def Log.record (log : Log C D) : Act C D → Log C D
  | .accepts connection => { log with accepted := some connection }
  | .opens => { log with sessions := ⟨log.accepted, [], false⟩ :: log.sessions }
  | .passes data => match log.sessions with
      | ⟨connection, passed, false⟩ :: older =>
          { log with sessions := ⟨connection, passed ++ data, false⟩ :: older }
      | _ => log
  | .closes => match log.sessions with
      | ⟨connection, passed, false⟩ :: older =>
          { log with sessions := ⟨connection, passed, true⟩ :: older }
      | _ => log

def log (acts : List (Act C D)) : Log C D := acts.foldl Log.record ⟨none, []⟩

theorem log_snoc (acts : List (Act C D)) (act : Act C D) :
    log (acts ++ [act]) = (log acts).record act := by
  rw [log, List.foldl_append]
  rfl

def Log.isOpen (log : Log C D) : Bool :=
  match log.sessions with
  | ⟨_, _, false⟩ :: _ => true
  | _ => false

/-- An act that the sessions so far allow. -/
def Log.Fits (log : Log C D) : Act C D → Prop
  | .accepts _ => True
  | .opens => log.isOpen = false
  | .passes _ | .closes => log.isOpen = true

theorem Log.isOpen_cases {log : Log C D} (opened : log.isOpen = true) :
    ∃ connection passed older, log.sessions = ⟨connection, passed, false⟩ :: older := by
  unfold isOpen at opened
  split at opened
  · exact ⟨_, _, _, by assumption⟩
  · cases opened

/-- Where every act fits, its mark is where a session has a place for it. -/
def Regular (acts : List (Act C D)) : Prop :=
  marks acts ∈ if (log acts).isOpen then begun else complete

theorem regular_nil : Regular ([] : List (Act C D)) := Language.nil_mem_kstar _

theorem Regular.snoc {acts : List (Act C D)} {act : Act C D} (regular : Regular acts)
    (fits : (log acts).Fits act) : Regular (acts ++ [act]) := by
  rw [Regular] at regular
  have added : marks (acts ++ [act]) = marks acts ++ act.mark.toList := by
    rw [marks, List.filterMap_append]
    cases found : act.mark <;> simp [marks, found]
  rw [Regular, added, log_snoc]
  cases act with
  | accepts connection =>
      rw [Act.mark, Option.toList_none, List.append_nil]
      exact regular
  | opens =>
      rw [show (log acts).isOpen = false from fits] at regular
      exact opens_begun regular
  | passes data =>
      rw [show (log acts).isOpen = true from fits] at regular
      obtain ⟨connection, passed, older, same⟩ := Log.isOpen_cases fits
      simp only [Log.record, same, Log.isOpen]
      exact passes_begun regular
  | closes =>
      rw [show (log acts).isOpen = true from fits] at regular
      obtain ⟨connection, passed, older, same⟩ := Log.isOpen_cases fits
      simp only [Log.record, same, Log.isOpen]
      exact closes_complete regular

theorem Regular.exists_complete {acts : List (Act C D)} (regular : Regular acts) :
    ∃ word ∈ complete, marks acts <+: word := by
  rw [Regular] at regular
  split at regular
  · exact ⟨_, closes_complete regular, List.prefix_append _ _⟩
  · exact ⟨_, regular, List.prefix_rfl⟩

theorem accepted_record (log : Log C D) (act : Act C D) :
    (log.record act).accepted = act.accepted.or log.accepted := by
  cases act with
  | accepts | opens => rfl
  | passes | closes =>
      rw [Log.record]
      split <;> rfl

theorem lastAccepted_snoc (acts : List (Act C D)) (act : Act C D) :
    lastAccepted (acts ++ [act]) = act.accepted.or (lastAccepted acts) := by
  rw [lastAccepted, List.filterMap_append, List.getLast?_append]
  cases found : act.accepted <;> simp [found, lastAccepted]

theorem log_accepted (acts : List (Act C D)) : (log acts).accepted = lastAccepted acts := by
  induction acts using List.reverseRecOn with
  | nil => rfl
  | append_singleton acts act ih => rw [log_snoc, accepted_record, ih, lastAccepted_snoc]

theorem log_middle (past middle : List (Act C D)) (noOpens : Act.opens ∉ middle)
    (noCloses : Act.closes ∉ middle) :
    (log (past ++ .opens :: middle)).sessions =
      ⟨lastAccepted past, passed middle, false⟩ :: (log past).sessions := by
  induction middle using List.reverseRecOn with
  | nil => rw [log_snoc, ← log_accepted]; rfl
  | append_singleton middle act ih =>
      simp only [List.mem_append, List.mem_singleton, not_or] at noOpens noCloses
      have before := ih noOpens.1 noCloses.1
      rw [← List.cons_append, ← List.append_assoc, log_snoc]
      cases act with
      | accepts connection => simpa [Log.record, passed, Act.data] using before
      | opens => exact absurd rfl noOpens.2
      | passes data => simp [Log.record, before, passed, Act.data]
      | closes => exact absurd rfl noCloses.2

theorem mem_record_of_closed {log : Log C D} {session : Session C D} (member : session ∈ log.sessions)
    (closed : session.closed = true) (act : Act C D) : session ∈ (log.record act).sessions := by
  cases act with
  | accepts => exact member
  | opens => exact List.mem_cons_of_mem _ member
  | passes | closes =>
      rw [Log.record]
      split
      · rename_i same
        rw [same] at member
        rcases List.mem_cons.mp member with rfl | old
        · cases closed
        · exact List.mem_cons_of_mem _ old
      · exact member

theorem closed_of_record {log : Log C D} {session : Session C D} {act : Act C D}
    (member : session ∈ (log.record act).sessions) (closed : session.closed = true) :
    session ∈ log.sessions ∨ act = .closes ∧ ∃ connection passed older,
      log.sessions = ⟨connection, passed, false⟩ :: older ∧ session = ⟨connection, passed, true⟩ := by
  cases act with
  | accepts => exact .inl member
  | opens =>
      rcases List.mem_cons.mp member with rfl | old
      · cases closed
      · exact .inl old
  | passes data =>
      rw [Log.record] at member
      split at member
      · rename_i same
        rcases List.mem_cons.mp member with rfl | old
        · cases closed
        · exact .inl (same ▸ List.mem_cons_of_mem _ old)
      · exact .inl member
  | closes =>
      rw [Log.record] at member
      split at member
      · rename_i connection passed older same
        rcases List.mem_cons.mp member with rfl | old
        · exact .inr ⟨rfl, connection, passed, older, same, rfl⟩
        · exact .inl (same ▸ List.mem_cons_of_mem _ old)
      · exact .inl member

theorem mem_log_append {acts : List (Act C D)} {session : Session C D}
    (member : session ∈ (log acts).sessions) (closed : session.closed = true) (rest : List (Act C D)) :
    session ∈ (log (acts ++ rest)).sessions := by
  induction rest using List.reverseRecOn with
  | nil => rwa [List.append_nil]
  | append_singleton rest act ih =>
      rw [← List.append_assoc, log_snoc]
      exact mem_record_of_closed ih closed act

/-- The log holds what was passed on between any opening and the closing that follows it. -/
theorem mem_log_between {acts past middle rest : List (Act C D)}
    (same : acts = past ++ .opens :: middle ++ .closes :: rest) (noOpens : Act.opens ∉ middle)
    (noCloses : Act.closes ∉ middle) :
    ⟨lastAccepted past, passed middle, true⟩ ∈ (log acts).sessions := by
  have split : acts = past ++ .opens :: middle ++ [.closes] ++ rest := by simp [same]
  rw [split]
  refine mem_log_append ?_ rfl rest
  rw [log_snoc, Log.record, log_middle past middle noOpens noCloses]
  exact List.mem_cons_self

end Library.Sessions
