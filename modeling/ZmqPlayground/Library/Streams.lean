import Mathlib.Data.List.Basic

/-! A stream of items that is written and read in pieces.

What a reader gets are pieces of the stream, cut anywhere. What a writer hands over
is a message, of which the stream takes as much as it has room for.
-/

set_option autoImplicit false

namespace Library.Streams

variable {A B : Type}

/-- The offsets in the stream at which the pieces end, when the first begins at the given one. -/
def endsFrom : ℕ → List (List A) → List ℕ
  | _, [] => []
  | offset, piece :: rest => (offset + piece.length) :: endsFrom (offset + piece.length) rest

def ends (pieces : List (List A)) : List ℕ := endsFrom 0 pieces

/-- One stream is cut in the same way exactly if the pieces end at the same places. -/
theorem eq_iff_ends {pieces others : List (List A)} (same : pieces.flatten = others.flatten) :
    pieces = others ↔ ends pieces = ends others := by
  suffices all : ∀ offset, endsFrom offset pieces = endsFrom offset others → pieces = others by
    exact ⟨fun equal => equal ▸ rfl, all 0⟩
  induction pieces generalizing others with
  | nil =>
      intro offset equal
      cases others with
      | nil => rfl
      | cons => cases equal
  | cons piece rest ih =>
      intro offset equal
      cases others with
      | nil => cases equal
      | cons other others =>
          rw [endsFrom, endsFrom, List.cons.injEq] at equal
          have length : piece.length = other.length := by omega
          obtain ⟨rfl, later⟩ := List.append_inj (show piece ++ rest.flatten = other ++ others.flatten from same) length
          rw [ih later _ equal.2]

/-- A message handed over, and how much of it has been taken. -/
structure Write (A : Type) where
  message : List A
  accepted : ℕ
  bounded : accepted ≤ message.length
  deriving DecidableEq

namespace Write

def taken (write : Write A) : List A := write.message.take write.accepted

def Torn (write : Write A) : Prop := 0 < write.accepted ∧ write.accepted < write.message.length

instance (write : Write A) : Decidable write.Torn := inferInstanceAs (Decidable (_ ∧ _))

theorem taken_of_whole {write : Write A} (whole : write.accepted = write.message.length) :
    write.taken = write.message := by
  rw [taken, whole, List.take_length]

theorem taken_of_refused {write : Write A} (refused : write.accepted = 0) : write.taken = [] := by
  rw [taken, refused, List.take_zero]

end Write

def stream (writes : List (Write A)) : List A := writes.flatMap Write.taken

theorem stream_cons (write : Write A) (rest : List (Write A)) : stream (write :: rest) = write.taken ++ stream rest :=
  List.flatMap_cons

@[simp] theorem stream_append (first rest : List (Write A)) :
    stream (first ++ rest) = stream first ++ stream rest :=
  List.flatMap_append

/-- Nothing is taken after a message of which only a part has been. -/
def Intact (writes : List (Write A)) : Prop :=
  writes.Pairwise fun earlier later => earlier.Torn → later.accepted = 0

instance (writes : List (Write A)) : Decidable (Intact writes) :=
  inferInstanceAs (Decidable (List.Pairwise _ _))

theorem stream_of_refused {writes : List (Write A)} (refused : ∀ write ∈ writes, write.accepted = 0) :
    stream writes = [] := by
  rw [stream, List.flatMap_eq_nil_iff]
  exact fun write member => Write.taken_of_refused (refused write member)

/-- Complete messages, in the order they were handed over, and a part of one more at the end. -/
theorem stream_of_intact {writes : List (Write A)} (intact : Intact writes) :
    ∃ (complete : List (Write A)) (part : List A), complete.Sublist writes ∧
      (∀ write ∈ complete, write.accepted = write.message.length) ∧
      stream writes = (complete.map Write.message).flatten ++ part ∧
      (part = [] ∨ ∃ write ∈ writes, write.Torn ∧ part = write.taken) := by
  induction writes with
  | nil => exact ⟨[], [], .slnil, by simp, rfl, .inl rfl⟩
  | cons write rest ih =>
      obtain ⟨after, intact⟩ := List.pairwise_cons.mp intact
      by_cases torn : write.Torn
      · refine ⟨[], write.taken, List.nil_sublist _, by simp, ?_, .inr ⟨write, by simp, torn, rfl⟩⟩
        rw [stream_cons, stream_of_refused fun later member => after later member torn]
        simp
      · obtain ⟨complete, part, sublist, whole, same, tail⟩ := ih intact
        have ending : part = [] ∨ ∃ later ∈ write :: rest, later.Torn ∧ part = later.taken :=
          tail.imp_right fun ⟨later, member, torn⟩ => ⟨later, List.mem_cons_of_mem write member, torn⟩
        by_cases refused : write.accepted = 0
        · refine ⟨complete, part, sublist.cons write, whole, ?_, ending⟩
          rw [stream_cons, Write.taken_of_refused refused, List.nil_append, same]
        · have full : write.accepted = write.message.length := by
            unfold Write.Torn at torn
            have := write.bounded
            omega
          refine ⟨write :: complete, part, sublist.cons_cons write, by simpa [full] using whole, ?_, ending⟩
          rw [stream_cons, Write.taken_of_whole full, same]
          simp

/-- Where more is taken after a torn message, the next bytes that are taken stand behind its part. -/
theorem continued_of_not_intact {writes : List (Write A)} (continued : ¬ Intact writes) :
    ∃ front torn between later back, writes = front ++ torn :: (between ++ later :: back) ∧ torn.Torn ∧
      0 < later.accepted ∧ stream writes = stream front ++ torn.taken ++ later.taken ++ stream back := by
  induction writes with
  | nil => exact absurd List.Pairwise.nil continued
  | cons write rest ih =>
      by_cases after : write.Torn → ∀ later ∈ rest, later.accepted = 0
      · have inside : ¬ Intact rest := fun intact =>
          continued (List.pairwise_cons.mpr ⟨fun later member torn => after torn later member, intact⟩)
        obtain ⟨front, torn, between, later, back, rfl, isTorn, accepted, same⟩ := ih inside
        refine ⟨write :: front, torn, between, later, back, rfl, isTorn, accepted, ?_⟩
        rw [stream_cons, same, stream_cons]
        simp only [List.append_assoc]
      · push Not at after
        obtain ⟨torn, some_later⟩ := after
        -- The first message of which anything is taken is the one behind the part.
        obtain ⟨later, between, back, rfl, accepted, refused⟩ :
            ∃ later between back, rest = between ++ later :: back ∧ later.accepted ≠ 0 ∧
              ∀ write ∈ between, write.accepted = 0 := by
          obtain ⟨later, found⟩ : ∃ later, rest.find? (fun write => decide (write.accepted ≠ 0)) = some later := by
            obtain ⟨later, member, accepted⟩ := some_later
            exact Option.isSome_iff_exists.mp (List.find?_isSome.mpr ⟨later, member, by simpa using accepted⟩)
          obtain ⟨accepted, between, back, split, refused⟩ := List.find?_eq_some_iff_append.mp found
          exact ⟨later, between, back, split, by simpa using accepted, by simpa using refused⟩
        refine ⟨[], write, between, later, back, rfl, torn, Nat.pos_of_ne_zero accepted, ?_⟩
        rw [stream_cons, stream_append, stream_of_refused refused, stream_cons]
        simp [stream]

end Library.Streams
