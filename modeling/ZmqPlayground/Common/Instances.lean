import Mathlib.Algebra.Group.Int.Defs
import Mathlib.Algebra.Group.Nat.Defs
import ZmqPlayground.Common.Message
import ZmqPlayground.Library.Numerals

/-! The instances of a service: their numbers, their names and the topics made of them.

The pods of a stateful set are named after the set and numbered. A service takes its
number from the end of its host name and puts it into the names of its topics.
-/

set_option autoImplicit false

namespace ZmqPlayground

open Library.Numerals

inductive ConversionError where
  | invalidArgument
  | outOfRange
  deriving DecidableEq

/-- `isspace` in the C locale: the blank, and what lies between tab and carriage return. -/
def isSpace (char : Char) : Bool := char = ' ' || (9 ≤ char.toNat && char.toNat ≤ 13)

/-- `std::stoul(str, nullptr, 10)`: white space and a sign are skipped, what follows the digits is left
over, and a negative number is the unsigned long it wraps around to. -/
def stoul (str : Str) : Except ConversionError ℕ :=
  let rest := str.dropWhile isSpace
  let negative := rest.head? = some '-'
  let digits := (if negative ∨ rest.head? = some '+' then rest.tail else rest).takeWhile Char.isDigit
  let value := Nat.ofDigitChars 10 digits 0
  if digits = [] then .error .invalidArgument
  else if 2 ^ 64 ≤ value then .error .outOfRange
  else if negative then .ok ((2 ^ 64 - value) % 2 ^ 64)
  else .ok value

/-- `std::stoi(str)`, which converts as `std::stoul` does but to an `int`. -/
def stoi (str : Str) : Except ConversionError Int :=
  let rest := str.dropWhile isSpace
  let negative := rest.head? = some '-'
  let digits := (if negative ∨ rest.head? = some '+' then rest.tail else rest).takeWhile Char.isDigit
  let value : Int := Nat.ofDigitChars 10 digits 0
  let value := if negative then -value else value
  if digits = [] then .error .invalidArgument
  else if value < -2 ^ 31 ∨ 2 ^ 31 ≤ value then .error .outOfRange
  else .ok value

def leadingDigits (str : Str) : Str :=
  let rest := str.dropWhile isSpace
  (if rest.head? = some '-' ∨ rest.head? = some '+' then rest.tail else rest).takeWhile Char.isDigit

def leadingNumber (str : Str) : ℕ := Nat.ofDigitChars 10 (leadingDigits str) 0

/-- The number of this instance: what follows the last dash of the host name, or 0. -/
def getContainerInstance (hostname : Str) : UInt32 :=
  match findLast '-' hostname with
  | some pos =>
      match stoul (hostname.drop (pos + 1)) with
      | .ok value => value.toUInt32
      -- The exception is contained.
      | .error _ => 0
  | none => 0

/-- `getContainerInstance` in its environment. The string made of a variable that is not set is outside
the `try` block. -/
def getContainerInstanceEnv (getenv : Option Str) : Option UInt32 := getenv.map getContainerInstance

/-- A host name of a stateful set: the name of the set, a dash and the number of the pod. -/
def hostname (set : Str) (ordinal : UInt32) : Str := set ++ '-' :: numeral ordinal.toNat

/-- What the main functions of the stacks make of their configured name and their number. -/
structure Service where
  name : Str
  pubTopics : List Str
  subTopics : List Str
  deriving DecidableEq

def ingress (name : Str) : Str := name ++ "-ingress".toList

def egress (name : Str) : Str := name ++ "-egress".toList

def Service.main (name hostname : Str) : Service :=
  let name := name ++ '-' :: numeral (getContainerInstance hostname).toNat
  { name
    pubTopics := [ingress name]
    subTopics := [egress name] }

def Service.topics (service : Service) : List Str := service.pubTopics ++ service.subTopics

theorem digit_head {char : Char} (digit : char.isDigit = true) :
    isSpace char = false ∧ char ≠ '-' ∧ char ≠ '+' := by
  rw [Char.isDigit_iff_toNat] at digit
  have least : 48 ≤ char.toNat := digit.1
  refine ⟨?_, ?_, ?_⟩
  · have blank : char ≠ ' ' := by
      rintro rfl
      exact absurd least (by decide)
    simp only [isSpace, blank, decide_false, Bool.false_or, Bool.and_eq_false_iff, decide_eq_false_iff_not]
    omega
  · rintro rfl
    exact absurd least (by decide)
  · rintro rfl
    exact absurd least (by decide)

theorem leadingDigits_digits {str : Str} (digits : ∀ char ∈ str, char.isDigit = true) :
    leadingDigits str = str := by
  have whole : str.takeWhile Char.isDigit = str := List.takeWhile_eq_self_iff.mpr digits
  cases str with
  | nil => rfl
  | cons first rest =>
      obtain ⟨unspaced, unsigned, unplussed⟩ := digit_head (digits first List.mem_cons_self)
      unfold leadingDigits
      rw [List.dropWhile_cons_of_neg (by simp [unspaced])]
      simpa [unsigned, unplussed] using whole

theorem stoul_undashed {str : Str} (undashed : '-' ∉ str) :
    stoul str =
      if leadingDigits str = [] then .error .invalidArgument
      else if 2 ^ 64 ≤ leadingNumber str then .error .outOfRange
      else .ok (leadingNumber str) := by
  -- Behind the last dash there is no sign that could negate the number.
  have unsigned : (str.dropWhile isSpace).head? ≠ some '-' := by
    intro dashed
    exact undashed ((List.dropWhile_suffix _).subset (List.mem_of_head? dashed))
  unfold stoul leadingNumber leadingDigits
  simp only [unsigned, if_false]

theorem toNat_getContainerInstance (set : Str) {suffix : Str} (undashed : '-' ∉ suffix) :
    (getContainerInstance (set ++ '-' :: suffix)).toNat =
      if 2 ^ 64 ≤ leadingNumber suffix then 0 else leadingNumber suffix % 2 ^ 32 := by
  have behind : (set ++ '-' :: suffix).drop (set.length + 1) = suffix := by
    rw [← List.drop_drop, List.drop_left, List.drop_one, List.tail_cons]
  have converted := stoul_undashed undashed
  rw [getContainerInstance, findLast_append set undashed]
  simp only [behind]
  by_cases empty : leadingDigits suffix = []
  · -- The conversion fails, and no digits are counted as 0.
    have zero : leadingNumber suffix = 0 := by
      rw [leadingNumber, empty]
      rfl
    rw [if_pos empty] at converted
    rw [converted, zero]
    rfl
  · rw [if_neg empty] at converted
    split at converted <;> rw [converted]
    · rename_i large
      rw [if_pos large]
      rfl
    · rename_i small
      rw [if_neg small]
      rfl

theorem getContainerInstance_hostname (set : Str) (ordinal : UInt32) :
    getContainerInstance (hostname set ordinal) = ordinal := by
  have undashed : '-' ∉ numeral ordinal.toNat := not_mem_numeral (by decide)
  have lead : leadingNumber (numeral ordinal.toNat) = ordinal.toNat := by
    rw [leadingNumber, leadingDigits_digits fun _ => isDigit_of_mem, ofDigitChars_numeral]
  have small := ordinal.toNat_lt
  apply UInt32.toNat_inj.mp
  rw [hostname, toNat_getContainerInstance set undashed, lead, if_neg (by omega), Nat.mod_eq_of_lt small]

theorem name_main (name set : Str) (ordinal : UInt32) :
    (Service.main name (hostname set ordinal)).name = hostname name ordinal := by
  rw [Service.main, getContainerInstance_hostname, hostname]

theorem topics_main (name set : Str) (ordinal : UInt32) :
    (Service.main name (hostname set ordinal)).pubTopics = [ingress (hostname name ordinal)] ∧
      (Service.main name (hostname set ordinal)).subTopics = [egress (hostname name ordinal)] := by
  rw [← name_main name set ordinal]
  exact ⟨rfl, rfl⟩

theorem mem_topics {name set topic : Str} {ordinal : UInt32}
    (member : topic ∈ (Service.main name (hostname set ordinal)).topics) :
    ∃ rest, topic = name ++ '-' :: (numeral ordinal.toNat ++ '-' :: rest) := by
  obtain ⟨pub, sub⟩ := topics_main name set ordinal
  have either : topic = ingress (hostname name ordinal) ∨ topic = egress (hostname name ordinal) := by
    simpa [Service.topics, pub, sub] using member
  rcases either with rfl | rfl
  · exact ⟨"ingress".toList, by simp [ingress, hostname]⟩
  · exact ⟨"egress".toList, by simp [egress, hostname]⟩

/-- Two pods of a set get their own numbers and topics that are named after them, and no topic of one begins a
topic of the other: neither a filter nor a conversion of one applies to a message of the other. -/
theorem instances_apart (name set : Str) {i j : UInt32} (different : i ≠ j) :
    (getContainerInstance (hostname set i) = i ∧ getContainerInstance (hostname set j) = j) ∧
      (∀ k, (Service.main name (hostname set k)).pubTopics =
          [name ++ "-".toList ++ numeral k.toNat ++ "-ingress".toList] ∧
        (Service.main name (hostname set k)).subTopics =
          [name ++ "-".toList ++ numeral k.toNat ++ "-egress".toList]) ∧
      ∀ other ∈ (Service.main name (hostname set j)).topics,
        (∀ topic ∈ (Service.main name (hostname set i)).topics, topic ≠ other ∧ ¬ topic <+: other) ∧
          ¬ Matches (Service.main name (hostname set i)).subTopics other := by
  refine ⟨⟨getContainerInstance_hostname set i, getContainerInstance_hostname set j⟩, fun k => ?_,
    fun other theirs => ?_⟩
  · simpa [ingress, egress, hostname] using topics_main name set k
  have apart : ∀ topic ∈ (Service.main name (hostname set i)).topics, ¬ topic <+: other := by
    intro topic ours begins
    obtain ⟨rest, rfl⟩ := mem_topics ours
    obtain ⟨more, rfl⟩ := mem_topics theirs
    rw [List.prefix_append_right_inj, List.prefix_cons_inj] at begins
    exact different (UInt32.toNat_inj.mp (eq_of_numeral_begins (by decide) (by decide) begins))
  constructor
  · intro topic ours
    have unlike := apart topic ours
    refine ⟨?_, unlike⟩
    rintro rfl
    exact unlike List.prefix_rfl
  · rintro ⟨filter, installed, begins⟩
    exact apart filter (List.mem_append_right _ (Multiset.mem_coe.mp installed)) begins

/-- One numeral may be the beginning of another. -/
theorem instances_apart_ten :
    "net-stack-10-egress".toList ∈ (Service.main "net-stack".toList (hostname "net-stack".toList 10)).topics ∧
      ¬ Matches (Service.main "net-stack".toList (hostname "net-stack".toList 1)).subTopics
        "net-stack-10-egress".toList := by
  have different : (1 : UInt32) ≠ 10 := by decide
  obtain ⟨-, topics, apart⟩ := instances_apart "net-stack".toList "net-stack".toList different
  have member : "net-stack-10-egress".toList ∈
      (Service.main "net-stack".toList (hostname "net-stack".toList 10)).topics := by
    rw [Service.topics, (topics 10).1, (topics 10).2]
    decide
  exact ⟨member, (apart _ member).2⟩

theorem hostname_inj {name name' : Str} {ordinal ordinal' : UInt32} :
    hostname name ordinal = hostname name' ordinal' ↔ name = name' ∧ ordinal = ordinal' := by
  rw [hostname, hostname, append_inj_of_not_mem (not_mem_numeral (by decide)) (not_mem_numeral (by decide)),
    numeral_inj, UInt32.toNat_inj]

/-- What follows the last dash of the host name is a decimal numeral for the number. -/
def Numbered (hostname : Option Str) (number : UInt32) : Prop :=
  ∃ set suffix, hostname = some (set ++ '-' :: suffix) ∧ suffix ≠ [] ∧
    (∀ char ∈ suffix, char.isDigit = true) ∧ Nat.ofDigitChars 10 suffix 0 = number.toNat

/-- The number is returned if there is one, and 0 if there is none. -/
def Answers (hostname : Option Str) : Prop :=
  ∃ number, getContainerInstanceEnv hostname = some number ∧
    (∀ expected, Numbered hostname expected → number = expected) ∧
    ((∀ expected, ¬ Numbered hostname expected) → number = 0)

/-- A text from which the right number is read: it is a numeral that fits, or what it leads with is too
long for an unsigned long or comes to nothing in 32 bits. -/
def Readable (suffix : Str) : Prop :=
  (suffix ≠ [] ∧ (∀ char ∈ suffix, char.isDigit = true) ∧ Nat.ofDigitChars 10 suffix 0 < 2 ^ 32) ∨
    2 ^ 64 ≤ leadingNumber suffix ∨ leadingNumber suffix % 2 ^ 32 = 0

instance (suffix : Str) : Decidable (Readable suffix) :=
  -- The characters of the text are looked at, not all there are.
  haveI : Decidable (∀ char ∈ suffix, char.isDigit = true) := List.decidableBAll _ suffix
  inferInstanceAs (Decidable ((_ ∧ _ ∧ _) ∨ _ ∨ _))

theorem numbered_append_iff (set : Str) {suffix : Str} (undashed : '-' ∉ suffix) (number : UInt32) :
    Numbered (some (set ++ '-' :: suffix)) number ↔ suffix ≠ [] ∧ (∀ char ∈ suffix, char.isDigit = true) ∧
      Nat.ofDigitChars 10 suffix 0 = number.toNat := by
  constructor
  · rintro ⟨set', suffix', same, nonempty, digits, denotes⟩
    have undashed' : '-' ∉ suffix' := fun member => absurd (digits _ member) (by decide)
    obtain ⟨rfl, rfl⟩ := (append_inj_of_not_mem undashed undashed').mp (Option.some.inj same)
    exact ⟨nonempty, digits, denotes⟩
  · exact fun numeral => ⟨set, suffix, rfl, numeral⟩

theorem answers_some_iff (name : Str) :
    Answers (some name) ↔
      (∀ expected, Numbered (some name) expected → getContainerInstance name = expected) ∧
        ((∀ expected, ¬ Numbered (some name) expected) → getContainerInstance name = 0) := by
  simp [Answers, getContainerInstanceEnv]

theorem answers_append_iff (set : Str) {suffix : Str} (undashed : '-' ∉ suffix) :
    Answers (some (set ++ '-' :: suffix)) ↔ Readable suffix := by
  have result := toNat_getContainerInstance set undashed
  have numbered := numbered_append_iff set undashed
  rw [answers_some_iff, Readable]
  by_cases numeral : suffix ≠ [] ∧ (∀ char ∈ suffix, char.isDigit = true) ∧
      Nat.ofDigitChars 10 suffix 0 < 2 ^ 32
  · -- A numeral that fits is what is read and returned.
    apply iff_of_true _ (.inl numeral)
    obtain ⟨nonempty, digits, small⟩ := numeral
    have denotes : Nat.ofDigitChars 10 suffix 0 = (getContainerInstance (set ++ '-' :: suffix)).toNat := by
      rw [result, leadingNumber, leadingDigits_digits digits, if_neg (by omega), Nat.mod_eq_of_lt small]
    constructor
    · intro expected is_numbered
      apply UInt32.toNat_inj.mp
      rw [← denotes]
      exact ((numbered expected).mp is_numbered).2.2
    · exact fun unnumbered => absurd ((numbered _).mpr ⟨nonempty, digits, denotes⟩) (unnumbered _)
  · -- Otherwise 0 is due, whatever the text leads with.
    have unnumbered : ∀ expected, ¬ Numbered (some (set ++ '-' :: suffix)) expected := by
      intro expected is_numbered
      obtain ⟨nonempty, digits, denotes⟩ := (numbered expected).mp is_numbered
      exact numeral ⟨nonempty, digits, denotes ▸ expected.toNat_lt⟩
    have zero : getContainerInstance (set ++ '-' :: suffix) = 0 ↔
        2 ^ 64 ≤ leadingNumber suffix ∨ leadingNumber suffix % 2 ^ 32 = 0 := by
      rw [← UInt32.toNat_inj, result, UInt32.toNat_zero]
      split
      · rename_i large
        exact iff_of_true rfl (.inl large)
      · rename_i small
        rw [or_iff_right small]
    rw [← zero, or_iff_right numeral]
    exact ⟨fun both => both.2 unnumbered,
      fun isZero => ⟨fun expected is_numbered => absurd is_numbered (unnumbered expected), fun _ => isZero⟩⟩

/-- The right number is returned exactly if the variable is set and, where the host name has a dash, what
follows the last one is readable. -/
theorem answers_iff (hostname : Option Str) :
    Answers hostname ↔ ∃ name, hostname = some name ∧
      ∀ set suffix, name = set ++ '-' :: suffix → '-' ∉ suffix → Readable suffix := by
  cases hostname with
  | none => simp [Answers, getContainerInstanceEnv]
  | some name =>
      simp only [Option.some.injEq, exists_eq_left']
      by_cases dashed : '-' ∈ name
      · obtain ⟨set, suffix, rfl, undashed⟩ := exists_last_of_mem dashed
        rw [answers_append_iff set undashed]
        constructor
        · intro readable set' suffix' same undashed'
          rw [append_inj_of_not_mem undashed undashed'] at same
          exact same.2 ▸ readable
        · exact fun all => all set suffix rfl undashed
      · apply iff_of_true
        · have none : getContainerInstance name = 0 := by rw [getContainerInstance, findLast_of_not_mem dashed]
          refine ⟨_, congrArg some none, ?_, fun _ => rfl⟩
          rintro expected ⟨set, suffix, same, _⟩
          cases same
          simp at dashed
        · rintro set suffix rfl
          simp at dashed

/-- No variable, the suffix of a pod that is not numbered, and a number that does not fit. -/
theorem wrong_answers :
    ¬ Answers none ∧ ¬ Answers (some "net-stack-7f9c".toList) ∧
      ¬ Answers (some "net-stack-4294967297".toList) := by
  have undashed : '-' ∉ "7f9c".toList ∧ '-' ∉ "4294967297".toList := by decide
  have unreadable : ¬ Readable "7f9c".toList ∧ ¬ Readable "4294967297".toList := by decide +kernel
  constructor
  · simp [Answers, getContainerInstanceEnv]
  · constructor
    · exact (answers_append_iff "net-stack".toList undashed.1).not.mpr unreadable.1
    · exact (answers_append_iff "net-stack".toList undashed.2).not.mpr unreadable.2

end ZmqPlayground
