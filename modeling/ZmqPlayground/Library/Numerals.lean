import Mathlib.Data.List.Infix
import Mathlib.Data.List.TakeWhile

/-! Decimal numerals within longer strings. -/

set_option autoImplicit false

namespace Library.Numerals

def numeral (n : ℕ) : List Char := (toString n).toList

theorem numeral_eq (n : ℕ) : numeral n = Nat.toDigits 10 n := by
  rw [numeral, Nat.toString_eq_ofList_toDigits, String.toList_ofList]

@[simp] theorem ofDigitChars_numeral (n : ℕ) : Nat.ofDigitChars 10 (numeral n) 0 = n := by
  rw [numeral_eq, Nat.ofDigitChars_ten_toDigits]

theorem numeral_inj {n m : ℕ} : numeral n = numeral m ↔ n = m := by
  constructor
  · intro same
    rw [← ofDigitChars_numeral n, same, ofDigitChars_numeral]
  · rintro rfl
    rfl

theorem isDigit_of_mem {n : ℕ} {char : Char} (member : char ∈ numeral n) : char.isDigit = true := by
  rw [numeral_eq] at member
  exact Nat.isDigit_of_mem_toDigits (by decide) (by decide) member

theorem not_mem_numeral {n : ℕ} {char : Char} (other : char.isDigit = false) : char ∉ numeral n := by
  intro member
  rw [isDigit_of_mem member] at other
  cases other

theorem takeWhile_numeral_cons {n : ℕ} {char : Char} (other : char.isDigit = false) (rest : List Char) :
    (numeral n ++ char :: rest).takeWhile Char.isDigit = numeral n := by
  rw [List.takeWhile_append_of_pos fun _ => isDigit_of_mem, List.takeWhile_cons, other]
  simp

/-- A numeral that goes on with another character is not the beginning of a different numeral. -/
theorem eq_of_numeral_begins {n m : ℕ} {char other : Char} {rest more : List Char}
    (ends : char.isDigit = false) (otherEnds : other.isDigit = false)
    (begins : numeral n ++ char :: rest <+: numeral m ++ other :: more) : n = m := by
  obtain ⟨tail, same⟩ := begins
  have digits := congrArg (List.takeWhile Char.isDigit) same
  rw [List.append_assoc, List.cons_append, takeWhile_numeral_cons ends,
    takeWhile_numeral_cons otherEnds] at digits
  exact numeral_inj.mp digits

section Last
variable {A : Type} [DecidableEq A]

def findLast (item : A) : List A → Option ℕ
  | [] => none
  | first :: rest =>
      match findLast item rest with
      | some pos => some (pos + 1)
      | none => if first = item then some 0 else none

theorem findLast_of_not_mem {item : A} {items : List A} (absent : item ∉ items) :
    findLast item items = none := by
  induction items with
  | nil => rfl
  | cons first rest ih =>
      rw [List.mem_cons, not_or] at absent
      rw [findLast, ih absent.2, if_neg (Ne.symm absent.1)]

theorem findLast_append {item : A} (before : List A) {behind : List A} (absent : item ∉ behind) :
    findLast item (before ++ item :: behind) = some before.length := by
  induction before with
  | nil => rw [List.nil_append, findLast, findLast_of_not_mem absent, if_pos rfl, List.length_nil]
  | cons first before ih => rw [List.cons_append, findLast, ih, List.length_cons]

omit [DecidableEq A] in
theorem exists_last_of_mem {item : A} {items : List A} (member : item ∈ items) :
    ∃ before behind, items = before ++ item :: behind ∧ item ∉ behind := by
  obtain ⟨behind, before, reversed, absent⟩ := List.eq_append_cons_of_mem (List.mem_reverse.mpr member)
  refine ⟨before.reverse, behind.reverse, ?_, by simpa using absent⟩
  rw [← List.reverse_reverse items, reversed]
  simp

theorem append_inj_of_not_mem {item : A} {before before' behind behind' : List A}
    (absent : item ∉ behind) (absent' : item ∉ behind') :
    before ++ item :: behind = before' ++ item :: behind' ↔ before = before' ∧ behind = behind' := by
  constructor
  · intro same
    have position := findLast_append before absent
    rw [same, findLast_append before' absent', Option.some.injEq] at position
    obtain ⟨front, back⟩ := List.append_inj same position.symm
    exact ⟨front, (List.cons.inj back).2⟩
  · rintro ⟨rfl, rfl⟩
    rfl

end Last

end Library.Numerals
