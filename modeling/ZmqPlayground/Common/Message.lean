import Mathlib.Data.Multiset.AddSub
import Mathlib.Data.List.Infix

/-! Strings, multipart messages and subscription filters.

A `char` is a `Char` and a `std::string` a list of them: nothing below depends on
more than equality, prefixes and the characters of a few constants. A filter is
in force as long as one instance of it is left, which a multiset records.
-/

set_option autoImplicit false

namespace ZmqPlayground

abbrev Str := List Char

def welcomeTopic : Str := ['\xF3', '\x00', '\x00']

def ctrlTopic : Str := "ctrl".toList

/-- A multipart message as it is received: it has at least one frame. -/
structure Message where
  frames : List Str
  nonempty : frames ≠ []
  deriving DecidableEq

namespace Message

def first (msgs : Message) : Str := msgs.frames.head msgs.nonempty

/-- The two frames `Publisher::publishMsg` sends. -/
def publication (topic appMsg : Str) : Message := ⟨[topic, appMsg], List.cons_ne_nil _ _⟩

@[simp] theorem first_publication (topic appMsg : Str) : (publication topic appMsg).first = topic :=
  rfl

theorem publication_inj {topic appMsg topic' appMsg' : Str} :
    publication topic appMsg = publication topic' appMsg' ↔ topic = topic' ∧ appMsg = appMsg' := by
  simp [publication]

theorem frames_zero (msgs : Message) : msgs.frames[0]? = some msgs.first := by
  rw [← List.head?_eq_getElem?, List.head?_eq_some_head msgs.nonempty]
  rfl

theorem length_pos (msgs : Message) : 0 < msgs.frames.length :=
  List.length_pos_iff.mpr msgs.nonempty

end Message

abbrev Filters := Multiset Str

/-- A message is received when some filter is a prefix of its first frame. -/
def Matches (filters : Filters) (topic : Str) : Prop := ∃ filter ∈ filters, filter <+: topic

instance (filters : Filters) (topic : Str) : Decidable (Matches filters topic) :=
  Multiset.decidableExistsMultiset

end ZmqPlayground
