import Mathlib.Data.List.Infix

/-! Texts read from a stream piece by piece, up to a delimiter.

The delimiter that ends a piece is taken out of the stream and is not part of the
piece. The end of the stream ends a piece as well, but an empty one there is none:
the read fails, and so does every read after the end has been seen.
-/

set_option autoImplicit false

namespace Library.Lines

variable {A : Type}

/-- An input stream: what has not been extracted yet, and its two state bits. -/
structure InStream (A : Type) where
  rest : List A
  eof : Bool
  fail : Bool
  deriving DecidableEq

def InStream.fresh (text : List A) : InStream A := ⟨text, false, false⟩

def InStream.good (stream : InStream A) : Bool := !stream.eof && !stream.fail

variable [DecidableEq A] {delim : A}

def extract (delim : A) : List A → List A × Option (List A)
  | [] => ([], none)
  | item :: rest =>
      if item = delim then ([], some rest)
      else
        let (piece, behind) := extract delim rest
        (item :: piece, behind)

/-- `getline`: the string that is read into, which a stream that is not good leaves as it is, and the
stream afterwards. -/
def InStream.getline (delim : A) (stream : InStream A) (str : List A) : List A × InStream A :=
  if stream.good then
    match extract delim stream.rest with
    | (piece, some rest) => (piece, { stream with rest := rest })
    -- At the end of the stream an empty piece is a read that has extracted nothing.
    | (piece, none) => (piece, ⟨[], true, piece.isEmpty⟩)
  else (str, { stream with fail := true })

theorem extract_append {piece : List A} (clean : delim ∉ piece) (rest : List A) :
    extract delim (piece ++ delim :: rest) = (piece, some rest) := by
  induction piece with
  | nil => rw [List.nil_append, extract, if_pos rfl]
  | cons item piece ih =>
      rw [List.mem_cons, not_or] at clean
      rw [List.cons_append, extract, if_neg (Ne.symm clean.1), ih clean.2]

theorem extract_of_not_mem {piece : List A} (clean : delim ∉ piece) :
    extract delim piece = (piece, none) := by
  induction piece with
  | nil => rfl
  | cons item piece ih =>
      rw [List.mem_cons, not_or] at clean
      rw [extract, if_neg (Ne.symm clean.1), ih clean.2]

theorem getline_append {piece : List A} (clean : delim ∉ piece) (rest str : List A) :
    (InStream.fresh (piece ++ delim :: rest)).getline delim str = (piece, .fresh rest) := by
  unfold InStream.getline
  simp only [InStream.fresh, extract_append clean]
  rfl

theorem getline_last {piece : List A} (clean : delim ∉ piece) (nonempty : piece ≠ []) (str : List A) :
    (InStream.fresh piece).getline delim str = (piece, ⟨[], true, false⟩) := by
  unfold InStream.getline
  simp only [InStream.fresh, extract_of_not_mem clean, List.isEmpty_eq_false_iff.mpr nonempty]
  rfl

theorem getline_nil (str : List A) :
    (InStream.fresh []).getline delim str = ([], ⟨[], true, true⟩) := rfl

theorem getline_ended (rest : List A) (fail : Bool) (str : List A) :
    (InStream.mk rest true fail).getline delim str = (str, ⟨rest, true, true⟩) := rfl

variable (delim) in
/-- Every text is empty, is one piece, or begins with a piece that a delimiter ends. -/
@[elab_as_elim] theorem piece_induction {motive : List A → Prop} (nil : motive [])
    (last : ∀ piece, delim ∉ piece → piece ≠ [] → motive piece)
    (more : ∀ piece rest, delim ∉ piece → motive rest → motive (piece ++ delim :: rest))
    (text : List A) : motive text := by
  -- On the length: what stands behind a delimiter is shorter.
  induction length : text.length using Nat.strong_induction_on generalizing text with
  | _ n ih =>
      by_cases member : delim ∈ text
      · obtain ⟨piece, rest, rfl, clean⟩ := List.eq_append_cons_of_mem member
        apply more piece rest clean
        apply ih rest.length _ rest rfl
        rw [← length, List.length_append, List.length_cons]
        omega
      · cases text with
        | nil => exact nil
        | cons item text => exact last _ member (List.cons_ne_nil _ _)

theorem getline_shortens {stream : InStream A} {str : List A}
    (succeeds : (stream.getline delim str).2.fail = false) :
    (stream.getline delim str).2.rest.length < stream.rest.length := by
  obtain ⟨text, eof, fail⟩ := stream
  cases eof with
  | true => cases succeeds
  | false =>
      cases fail with
      | true => cases succeeds
      | false =>
          -- The stream is good, so it is the fresh one of its text.
          change ((InStream.fresh text).getline delim str).2.fail = false at succeeds
          change ((InStream.fresh text).getline delim str).2.rest.length < text.length
          cases text using piece_induction delim with
          | nil => cases succeeds
          | last piece clean nonempty =>
              rw [getline_last clean nonempty]
              exact List.length_pos_iff.mpr nonempty
          | more piece rest clean _ =>
              rw [getline_append clean]
              simp only [InStream.fresh, List.length_append, List.length_cons]
              omega

/-- The pieces that a loop reads until a read fails. -/
def readAll (delim : A) (stream : InStream A) (str : List A) : List (List A) :=
  if (stream.getline delim str).2.fail = false then
    (stream.getline delim str).1 ::
      readAll delim (stream.getline delim str).2 (stream.getline delim str).1
  else []
termination_by stream.rest.length
decreasing_by exact getline_shortens (by assumption)

def pieces (delim : A) (text : List A) : List (List A) := readAll delim (.fresh text) []

theorem readAll_ended (rest : List A) (fail : Bool) (str : List A) :
    readAll delim ⟨rest, true, fail⟩ str = [] := by
  rw [readAll, getline_ended]
  rfl

/-- What stood in the string before the loop is never seen in it. -/
theorem readAll_fresh (text str : List A) : readAll delim (.fresh text) str = pieces delim text := by
  rw [pieces, readAll.eq_1 delim (.fresh text) str, readAll.eq_1 delim (.fresh text) []]
  rfl

@[simp] theorem pieces_nil : pieces delim ([] : List A) = [] := by
  rw [pieces, readAll, getline_nil]
  rfl

theorem pieces_last {piece : List A} (clean : delim ∉ piece) (nonempty : piece ≠ []) :
    pieces delim piece = [piece] := by
  rw [pieces, readAll, getline_last clean nonempty, if_pos rfl, readAll_ended]

theorem pieces_append {piece : List A} (clean : delim ∉ piece) (rest : List A) :
    pieces delim (piece ++ delim :: rest) = piece :: pieces delim rest := by
  rw [pieces, readAll, getline_append clean, ← readAll_fresh rest piece]
  rfl

theorem pieces_eq_nil_iff {text : List A} : pieces delim text = [] ↔ text = [] := by
  cases text using piece_induction delim with
  | nil => simp
  | last piece clean nonempty => simp [pieces_last clean nonempty, nonempty]
  | more piece rest clean _ => simp [pieces_append clean]

theorem not_mem_of_mem_pieces {text piece : List A} (member : piece ∈ pieces delim text) :
    delim ∉ piece := by
  induction text using piece_induction delim with
  | nil => simp at member
  | last whole clean nonempty =>
      rw [pieces_last clean nonempty, List.mem_singleton] at member
      exact member ▸ clean
  | more first rest clean ih =>
      rw [pieces_append clean, List.mem_cons] at member
      rcases member with rfl | member
      · exact clean
      · exact ih member

theorem mem_of_mem_pieces {item : A} {text piece : List A} (listed : piece ∈ pieces delim text)
    (member : item ∈ piece) : item ∈ text := by
  induction text using piece_induction delim with
  | nil => simp at listed
  | last text clean nonempty =>
      rw [pieces_last clean nonempty, List.mem_singleton] at listed
      exact listed ▸ member
  | more first rest clean ih =>
      rw [pieces_append clean, List.mem_cons] at listed
      rcases listed with rfl | later
      · exact List.mem_append_left _ member
      · exact List.mem_append_right _ (List.mem_cons_of_mem _ (ih later))

theorem join_pieces (text : List A) :
    [delim].intercalate (pieces delim text) = if text.getLast? = some delim then text.dropLast else text := by
  induction text using piece_induction delim with
  | nil => simp
  | last piece clean nonempty =>
      have unended : piece.getLast? ≠ some delim := fun ends => clean (List.mem_of_getLast? ends)
      rw [pieces_last clean nonempty, List.intercalate_singleton, if_neg unended]
  | more piece rest clean ih =>
      rw [pieces_append clean]
      by_cases empty : rest = []
      · -- The delimiter ends the text, and no piece comes of what is behind it.
        subst empty
        rw [pieces_nil, List.intercalate_singleton, List.getLast?_concat, if_pos rfl, List.dropLast_concat]
      · have some_pieces : pieces delim rest ≠ [] := fun none => empty (pieces_eq_nil_iff.mp none)
        obtain ⟨first, more, same⟩ := List.exists_cons_of_ne_nil empty
        have lasts : (piece ++ delim :: rest).getLast? = rest.getLast? := by
          rw [List.getLast?_append, same, List.getLast?_cons_cons]
          cases found : (first :: more).getLast? with
          | none => simp at found
          | some last => rfl
        rw [List.intercalate_cons_of_ne_nil some_pieces, ih, lasts]
        -- Whether the text ends in a delimiter is decided behind the first one.
        split
        · rw [List.dropLast_append_cons, same, List.dropLast_cons_cons]
          simp
        · simp

omit [DecidableEq A] in
theorem not_mem_join {item : A} (other : item ≠ delim) {texts : List (List A)}
    (absent : ∀ text ∈ texts, item ∉ text) : item ∉ [delim].intercalate texts := by
  induction texts with
  | nil => simp
  | cons text texts ih =>
      have own : item ∉ text := absent text List.mem_cons_self
      have rest := ih fun text member => absent text (List.mem_cons_of_mem _ member)
      by_cases empty : texts = []
      · subst empty
        rwa [List.intercalate_singleton]
      · rw [List.intercalate_cons_of_ne_nil empty, List.mem_append, List.mem_append, List.mem_singleton]
        simp [own, other, rest]

/-- A list of texts is read back from its join if no delimiter is in them and the last is not empty. -/
theorem pieces_join {texts : List (List A)} (nonempty : texts ≠ []) (clean : ∀ text ∈ texts, delim ∉ text)
    (last : texts.getLast nonempty ≠ []) : pieces delim ([delim].intercalate texts) = texts := by
  induction texts with
  | nil => exact absurd rfl nonempty
  | cons text texts ih =>
      have own : delim ∉ text := clean text List.mem_cons_self
      by_cases empty : texts = []
      · subst empty
        rw [List.intercalate_singleton]
        exact pieces_last own last
      · rw [List.intercalate_cons_of_ne_nil empty, List.append_assoc, List.singleton_append,
          pieces_append own, ih empty (fun other member => clean other (List.mem_cons_of_mem _ member))]
        rwa [List.getLast_cons empty] at last

omit [DecidableEq A] in
theorem not_mem_terminated {item : A} (other : item ≠ delim) {texts : List (List A)}
    (absent : ∀ text ∈ texts, item ∉ text) : item ∉ texts.flatMap (· ++ [delim]) := by
  intro member
  obtain ⟨text, listed, inside⟩ := List.mem_flatMap.mp member
  rcases List.mem_append.mp inside with own | last
  · exact absent text listed own
  · exact other (List.mem_singleton.mp last)

/-- Texts are read back, also empty ones, if each is ended by a delimiter that is in none of them. -/
theorem pieces_terminated {texts : List (List A)} (clean : ∀ text ∈ texts, delim ∉ text) :
    pieces delim (texts.flatMap (· ++ [delim])) = texts := by
  induction texts with
  | nil => exact pieces_nil
  | cons text texts ih =>
      rw [List.forall_mem_cons] at clean
      rw [List.flatMap_cons, List.append_assoc, List.singleton_append, pieces_append clean.1, ih clean.2]

def before (delim : A) (text : List A) : List A := (extract delim text).1

def behind (delim : A) (text : List A) : List A := (extract delim text).2.getD []

theorem pieces_of_ne_nil {text : List A} (nonempty : text ≠ []) :
    pieces delim text = before delim text :: pieces delim (behind delim text) := by
  cases text using piece_induction delim with
  | nil => exact absurd rfl nonempty
  | last piece clean nonempty =>
      rw [pieces_last clean nonempty, before, behind, extract_of_not_mem clean, Option.getD_none, pieces_nil]
  | more piece rest clean _ =>
      rw [pieces_append clean, before, behind, extract_append clean, Option.getD_some]

theorem before_append {piece : List A} (clean : delim ∉ piece) (rest : List A) :
    before delim (piece ++ delim :: rest) = piece := by
  rw [before, extract_append clean]

theorem behind_append {piece : List A} (clean : delim ∉ piece) (rest : List A) :
    behind delim (piece ++ delim :: rest) = rest := by
  rw [behind, extract_append clean, Option.getD_some]

theorem before_of_not_mem {piece : List A} (clean : delim ∉ piece) : before delim piece = piece := by
  rw [before, extract_of_not_mem clean]

theorem length_pieces_pos_iff {text : List A} : 0 < (pieces delim text).length ↔ text ≠ [] := by
  rw [List.length_pos_iff, ne_eq, pieces_eq_nil_iff]

theorem two_le_length_pieces_iff {text : List A} :
    2 ≤ (pieces delim text).length ↔ delim ∈ text.dropLast := by
  cases text using piece_induction delim with
  | nil => simp
  | last piece clean nonempty =>
      rw [pieces_last clean nonempty]
      simpa using fun member => clean (List.mem_of_mem_dropLast member)
  | more piece rest clean _ =>
      have behind := @length_pieces_pos_iff _ _ delim rest
      rw [pieces_append clean, List.length_cons, List.dropLast_append_cons, List.mem_append]
      cases rest with
      | nil =>
          simpa using clean
      | cons item rest =>
          rw [List.dropLast_cons_cons]
          simp only [ne_eq, reduceCtorEq, not_false_eq_true, iff_true] at behind
          simp only [List.mem_cons, true_or, or_true, iff_true]
          omega

theorem length_pieces_eq_two_iff {text : List A} :
    (pieces delim text).length = 2 ↔ behind delim text ≠ [] ∧ delim ∉ (behind delim text).dropLast := by
  rw [← @length_pieces_pos_iff _ _ delim, ← two_le_length_pieces_iff]
  by_cases empty : text = []
  · subst empty
    rw [pieces_nil, show behind delim ([] : List A) = [] from rfl, pieces_nil]
    simp
  · rw [pieces_of_ne_nil empty, List.length_cons]
    omega

end Library.Lines
