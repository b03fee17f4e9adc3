import Mathlib.Data.List.Basic
import Mathlib.Data.List.Flatten

/-!
# Reading lines into a buffer

The lines of a text, with the newlines at their ends, and the pieces that come
of reading it into a buffer: a piece goes up to the end of a line, or up to
the end of the buffer.  The pieces of a text are those of its lines.
-/

namespace LineReader

variable {Char : Type} [DecidableEq Char]

/-- The lines of a text; the last one may not have a newline. -/
def lines (newline : Char) : List Char → List (List Char)
  | [] => []
  | char :: rest =>
      if char = newline then [char] :: lines newline rest
      else
        match lines newline rest with
        | [] => [[char]]
        | line :: others => (char :: line) :: others

/-- What fits into a buffer, and the rest of the text. -/
def fgets (newline : Char) : Nat → List Char → List Char × List Char
  | 0, input => ([], input)
  | _ + 1, [] => ([], [])
  | room + 1, char :: rest =>
      if char = newline then ([char], rest)
      else (char :: (fgets newline room rest).1, (fgets newline room rest).2)

theorem length_fgets (newline : Char) (room : Nat) (input : List Char) :
    (fgets newline room input).1.length +
      (fgets newline room input).2.length = input.length := by
  induction room, input using fgets.induct newline with
  | case1 input => simp [fgets]
  | case2 => simp [fgets]
  | case3 room rest => simp [fgets]; omega
  | case4 room char rest notNewline inductionHypothesis =>
      simp only [fgets, notNewline, ↓reduceIte, List.length_cons]
      omega

theorem fgets_consumes (newline : Char) {room : Nat} {input : List Char}
    (hasRoom : room ≠ 0) (nonempty : input ≠ []) :
    (fgets newline room input).2.length < input.length := by
  obtain ⟨room, rfl⟩ := Nat.exists_eq_succ_of_ne_zero hasRoom
  obtain ⟨char, rest, rfl⟩ := List.exists_cons_of_ne_nil nonempty
  rw [Nat.succ_eq_add_one, fgets]
  split
  · exact Nat.lt_add_one _
  · have := length_fgets newline room rest
    simp only [List.length_cons]
    omega

/-- All pieces of a text. -/
def pieces (newline : Char) (room : Nat) (input : List Char) :
    List (List Char) :=
  if input = [] ∨ room = 0 then []
  else
    (fgets newline room input).1 ::
      pieces newline room (fgets newline room input).2
termination_by input.length
decreasing_by
  next goesOn =>
    rw [not_or] at goesOn
    exact fgets_consumes newline goesOn.2 goesOn.1

variable {newline : Char} {room : Nat}

/-- A newline comes at the end, if at all. -/
def IsLine (newline : Char) (line : List Char) : Prop :=
  newline ∉ line.dropLast

/-! ## One line -/

theorem fgets_of_not_mem {text : List Char} (noNewline : newline ∉ text)
    (room : Nat) :
    fgets newline room text = (text.take room, text.drop room) := by
  induction text generalizing room with
  | nil => cases room <;> rfl
  | cons char rest inductionHypothesis =>
      rw [List.mem_cons, not_or] at noNewline
      cases room with
      | zero => rfl
      | succ room =>
          rw [fgets, if_neg (Ne.symm noNewline.1),
            inductionHypothesis noNewline.2, List.take_succ_cons,
            List.drop_succ_cons]

theorem fgets_terminated {text : List Char} (noNewline : newline ∉ text)
    (room : Nat) (later : List Char) :
    fgets newline room (text ++ newline :: later) =
      ((text ++ [newline]).take room,
        (text ++ [newline]).drop room ++ later) := by
  induction text generalizing room with
  | nil =>
      cases room with
      | zero => rfl
      | succ room =>
          rw [List.nil_append, fgets, if_pos rfl]
          simp
  | cons char rest inductionHypothesis =>
      rw [List.mem_cons, not_or] at noNewline
      cases room with
      | zero => simp [fgets]
      | succ room =>
          rw [List.cons_append, fgets, if_neg (Ne.symm noNewline.1),
            inductionHypothesis noNewline.2, List.cons_append,
            List.take_succ_cons, List.drop_succ_cons]

/-- A line is a text, maybe with a newline behind it. -/
theorem isLine_iff {line : List Char} :
    IsLine newline line ↔
      newline ∉ line ∨ ∃ text, newline ∉ text ∧ line = text ++ [newline] := by
  constructor
  · intro isLine
    rcases List.eq_nil_or_concat' line with rfl | ⟨text, last, rfl⟩
    · exact .inl List.not_mem_nil
    · rw [IsLine, List.dropLast_concat] at isLine
      by_cases isNewline : last = newline
      · exact .inr ⟨text, isLine, by rw [isNewline]⟩
      · refine .inl fun member => ?_
        rcases List.mem_append.mp member with inText | isLast
        · exact isLine inText
        · exact isNewline (List.mem_singleton.mp isLast).symm
  · rintro (noNewline | ⟨text, noNewline, rfl⟩)
    · exact fun member => noNewline (List.dropLast_subset line member)
    · rwa [IsLine, List.dropLast_concat]

omit [DecidableEq Char] in
theorem IsLine.drop {line : List Char} (isLine : IsLine newline line)
    (count : Nat) : IsLine newline (line.drop count) := by
  intro member
  refine isLine ?_
  rw [← List.take_append_drop count line]
  by_cases isEmpty : line.drop count = []
  · rw [isEmpty] at member
    cases member
  · rw [List.dropLast_append_of_ne_nil isEmpty]
    exact List.mem_append_right _ member

theorem fgets_of_isLine {line : List Char} (isLine : IsLine newline line)
    (room : Nat) :
    fgets newline room line = (line.take room, line.drop room) := by
  rcases isLine_iff.mp isLine with noNewline | ⟨text, noNewline, rfl⟩
  · exact fgets_of_not_mem noNewline room
  · rw [fgets_terminated noNewline, List.append_nil]

@[simp] theorem pieces_nil : pieces newline room [] = [] := by
  rw [pieces, if_pos (.inl rfl)]

/-- The pieces of one line are as long as the buffer, but for the last. -/
theorem pieces_of_isLine {line : List Char} (hasRoom : room ≠ 0)
    (isLine : IsLine newline line) (nonempty : line ≠ []) :
    pieces newline room line =
      line.take room :: pieces newline room (line.drop room) := by
  rw [pieces, if_neg (not_or.mpr ⟨nonempty, hasRoom⟩),
    fgets_of_isLine isLine]

/-- The pieces of a line begin at the multiples of the buffer's size. -/
theorem forall_head_pieces_iff {line : List Char} {char : Char}
    (hasRoom : room ≠ 0) (isLine : IsLine newline line) :
    (∀ piece ∈ pieces newline room line, piece.head? = some char) ↔
      ∀ count, room * count < line.length →
        (line)[room * count]? = some char := by
  induction isSize : line.length using Nat.strongRecOn
    generalizing line with
  | ind size inductionHypothesis =>
      by_cases isEmpty : line = []
      · subst isEmpty
        rw [← isSize]
        simp
      · have shorter : (line.drop room).length < size := by
          have := List.length_pos_of_ne_nil isEmpty
          rw [List.length_drop]
          omega
        have later :=
          inductionHypothesis _ shorter (isLine.drop room) rfl
        have head : (line.take room).head? = (line)[0]? := by
          rw [List.head?_eq_getElem?, List.getElem?_take_of_lt
            (Nat.pos_of_ne_zero hasRoom)]
        rw [pieces_of_isLine hasRoom isLine isEmpty, List.forall_mem_cons,
          head, later]
        constructor
        · rintro ⟨first, others⟩ count isInside
          cases count with
          | zero => exact first
          | succ count =>
              have found := others count (by
                rw [List.length_drop, isSize]
                rw [Nat.mul_succ] at isInside
                omega)
              rwa [List.getElem?_drop, Nat.add_comm, ← Nat.mul_succ] at found
        · intro all
          refine ⟨all 0 ?_, fun count isInside => ?_⟩
          · rw [← isSize]
            exact List.length_pos_of_ne_nil isEmpty
          · rw [List.getElem?_drop, Nat.add_comm, ← Nat.mul_succ]
            refine all (count + 1) ?_
            rw [List.length_drop, isSize] at isInside
            rw [Nat.mul_succ]
            omega

/-! ## All lines -/

theorem lines_of_not_mem {text : List Char} (noNewline : newline ∉ text)
    (nonempty : text ≠ []) : lines newline text = [text] := by
  induction text with
  | nil => exact absurd rfl nonempty
  | cons char rest inductionHypothesis =>
      rw [List.mem_cons, not_or] at noNewline
      rw [lines, if_neg (Ne.symm noNewline.1)]
      cases rest with
      | nil => rfl
      | cons other later =>
          rw [inductionHypothesis noNewline.2 (List.cons_ne_nil _ _)]

theorem lines_terminated {text : List Char} (noNewline : newline ∉ text)
    (later : List Char) :
    lines newline (text ++ newline :: later) =
      (text ++ [newline]) :: lines newline later := by
  induction text with
  | nil => rw [List.nil_append, lines, if_pos rfl, List.nil_append]
  | cons char rest inductionHypothesis =>
      rw [List.mem_cons, not_or] at noNewline
      rw [List.cons_append, lines, if_neg (Ne.symm noNewline.1),
        inductionHypothesis noNewline.2, List.cons_append]

/-- A text is empty, has no newline, or begins with a line. -/
theorem line_induction {motive : List Char → Prop} (nil : motive [])
    (unterminated :
      ∀ text, newline ∉ text → text ≠ [] → motive text)
    (terminated :
      ∀ text later, newline ∉ text → motive later →
        motive (text ++ newline :: later))
    (input : List Char) : motive input := by
  induction isSize : input.length using Nat.strongRecOn
    generalizing input with
  | ind size inductionHypothesis =>
      by_cases isEmpty : input = []
      · rw [isEmpty]
        exact nil
      · by_cases hasNewline : newline ∈ input
        · obtain ⟨text, later, rfl, noNewline⟩ :=
            List.eq_append_cons_of_mem hasNewline
          refine terminated text later noNewline
            (inductionHypothesis later.length ?_ later rfl)
          rw [← isSize, List.length_append, List.length_cons]
          omega
        · exact unterminated input hasNewline isEmpty

theorem isLine_of_mem_lines {input line : List Char}
    (member : line ∈ lines newline input) :
    IsLine newline line ∧ line ≠ [] := by
  induction input using @line_induction _ _ newline with
  | nil => cases member
  | unterminated text noNewline nonempty =>
      rw [lines_of_not_mem noNewline nonempty, List.mem_singleton] at member
      rw [member]
      exact ⟨isLine_iff.mpr (.inl noNewline), nonempty⟩
  | terminated text later noNewline inductionHypothesis =>
      rw [lines_terminated noNewline] at member
      rcases List.mem_cons.mp member with rfl | inLater
      · exact ⟨isLine_iff.mpr (.inr ⟨text, noNewline, rfl⟩), by simp⟩
      · exact inductionHypothesis inLater

/-- The pieces of a text are those of its lines. -/
theorem pieces_eq (hasRoom : room ≠ 0) (input : List Char) :
    pieces newline room input =
      (lines newline input).flatMap (pieces newline room) := by
  have afterText (text later : List Char) (noNewline : newline ∉ text) :
      pieces newline room (text ++ newline :: later) =
        pieces newline room (text ++ [newline]) ++
          pieces newline room later := by
    induction isSize : text.length using Nat.strongRecOn
      generalizing text with
    | ind size inductionHypothesis =>
        have isLine : IsLine newline (text ++ [newline]) :=
          isLine_iff.mpr (.inr ⟨text, noNewline, rfl⟩)
        rw [pieces_of_isLine hasRoom isLine (by simp), pieces,
          if_neg (not_or.mpr ⟨by simp, hasRoom⟩), fgets_terminated noNewline,
          List.cons_append]
        congr 1
        by_cases fits : text.length < room
        · rw [List.drop_eq_nil_of_le (by
            rw [List.length_append, List.length_singleton]
            omega), List.nil_append,
            pieces_nil, List.nil_append]
        · rw [List.drop_append_of_le_length (by omega), List.append_assoc,
            List.singleton_append]
          refine inductionHypothesis _ ?_ _
            (fun member => noNewline (List.drop_subset _ _ member)) rfl
          rw [List.length_drop]
          omega
  induction input using @line_induction _ _ newline with
  | nil => rw [pieces_nil]; rfl
  | unterminated text noNewline nonempty =>
      rw [lines_of_not_mem noNewline nonempty, List.flatMap_singleton]
  | terminated text later noNewline inductionHypothesis =>
      rw [afterText text later noNewline, lines_terminated noNewline,
        List.flatMap_cons, inductionHypothesis]

/-- Where each item gives at least as much, nothing more is given in all only
if each item gives the same. -/
theorem flatMap_eq_flatMap_iff {Item Result : Type} {items : List Item}
    {more few : Item → List Result}
    (atLeast :
      ∀ item ∈ items, (few item).length ≤ (more item).length) :
    items.flatMap more = items.flatMap few ↔
      ∀ item ∈ items, more item = few item := by
  have length (items : List Item)
      (atLeast :
        ∀ item ∈ items, (few item).length ≤ (more item).length) :
      (items.flatMap few).length ≤ (items.flatMap more).length := by
    induction items with
    | nil => exact Nat.le_refl _
    | cons item rest inductionHypothesis =>
        rw [List.forall_mem_cons] at atLeast
        have ofRest := inductionHypothesis atLeast.2
        rw [List.flatMap_cons, List.flatMap_cons, List.length_append,
          List.length_append]
        omega
  induction items with
  | nil => simp
  | cons item rest inductionHypothesis =>
      rw [List.forall_mem_cons] at atLeast
      have ofRest := length rest atLeast.2
      have sameRest := inductionHypothesis atLeast.2
      rw [List.flatMap_cons, List.flatMap_cons, List.forall_mem_cons]
      constructor
      · intro same
        have sameLength := congrArg List.length same
        rw [List.length_append, List.length_append] at sameLength
        obtain ⟨sameItem, sameLater⟩ := List.append_inj same (by omega)
        exact ⟨sameItem, sameRest.mp sameLater⟩
      · rintro ⟨sameItem, sameLater⟩
        rw [sameItem, sameRest.mpr sameLater]

end LineReader
