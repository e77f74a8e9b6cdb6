/-
This file says which rows the context of a report has, and reads the lines back from them.
-/

import Brainfuck.Proofs.Report.Location
import Brainfuck.Proofs.Text.Columns

namespace Brainfuck

namespace Excerpt

/-- These lines stand around the position, and none is further away than two lines. -/
def window (count : Nat) (position : Position) : List Nat :=
  List.range' (max 1 (position.line - 2))
    (min count (position.line + 2) + 1 - max 1 (position.line - 2))

/--
A line takes one row, and a caret follows the line of the position. Blanks stand before a number of
fewer than four digits.
-/
def block (position : Position) (number : Nat) (text : List Char) : List (List Char) :=
  ((if number = position.line then '>' else ' ') :: ' ' ::
    (List.replicate (4 - (Nat.toDigits 10 number).length) ' ' ++ Nat.toDigits 10 number ++
      ' ' :: '|' :: ' ' :: text)) ::
    if number = position.line then
      [List.replicate 7 ' ' ++ '|' :: ' ' :: (List.replicate (position.column - 1) ' ' ++ ['^'])]
    else []

/-- A number before the first bar makes the rest of the row a line of the text. -/
def reading? (row : List Char) : Option (Nat × List Char) :=
  match (row.takeWhile (· != '|')).filter Char.isDigit with
  | [] => none
  | digit :: digits =>
      some (Nat.ofDigitChars 10 (digit :: digits) 0, (row.dropWhile (· != '|')).drop 2)

/-- These numbered lines are found in the rows. -/
def readings (context : List Char) : List (Nat × List Char) :=
  (context.splitOn '\n').filterMap reading?

end Excerpt

/-- The context of the report shows the lines around its position, each as it is. -/
structure Report.Shows (report : Report) (lines : List (List Char)) : Prop where
  line : 1 ≤ report.position.line ∧ report.position.line ≤ lines.length
  marked : Excerpt.markedLine lines.length report.position.line = report.position.line
  rows : report.context.splitOn '\n' =
    (Excerpt.window lines.length report.position).flatMap fun number =>
      Excerpt.block report.position number (lines.getD (number - 1) [])
  reading : Excerpt.readings report.context =
    (Excerpt.window lines.length report.position).map fun number =>
      (number, lines.getD (number - 1) [])

namespace Excerpt

variable {lines : List (List Char)} {position : Position}

theorem caretRow_eq (column : Nat) :
    caretRow column =
      List.replicate 7 ' ' ++ '|' :: ' ' :: (List.replicate (column - 1) ' ' ++ ['^']) := by
  have blanks : ((column : Int) - 1).toNat = column - 1 := by omega
  rw [caretRow, blanks]

theorem block_eq (position : Position) (number : Nat) (text : List Char) :
    block position number text =
      ((if number = position.line then '>' else ' ') :: ' ' ::
        (Rows.column 4 number ++ ' ' :: '|' :: ' ' :: text)) ::
        if number = position.line then [caretRow position.column] else [] := by
  rw [caretRow_eq]
  rfl

/-- An existing line takes the mark itself. -/
theorem markedLine_eq {count line : Nat} (first : 1 ≤ line) (last : line ≤ count) :
    markedLine count line = line := by
  rw [markedLine]
  omega

/-- A line within the margin is shown. -/
theorem rowsFor_inside {number : Nat} (text : List Char)
    (inside : position.line ≤ number + 2 ∧ number ≤ position.line + 2) :
    rowsFor position.line position.column defaultMargin number text =
      block position number text := by
  have near : (position.line : Int) - defaultMargin ≤ number ∧
      (number : Int) ≤ position.line + defaultMargin := by
    rw [defaultMargin]
    omega
  rw [rowsFor, if_pos near, block_eq]
  by_cases here : number = position.line
  · simp [here, lineRow]
  · have other : (number : Int) ≠ position.line := by omega
    simp [here, other, lineRow]

/-- A line beyond the margin is left out. -/
theorem rowsFor_outside {number : Nat} (text : List Char)
    (outside : ¬ (position.line ≤ number + 2 ∧ number ≤ position.line + 2)) :
    rowsFor position.line position.column defaultMargin number text = [] := by
  rw [rowsFor, if_neg]
  rw [defaultMargin]
  omega

theorem zipIdx_eq_map (lines : List (List Char)) :
    lines.zipIdx 1 =
      (List.range' 1 lines.length).map fun number => (lines.getD (number - 1) [], number) := by
  apply List.ext_getElem
  · simp
  · intro index left right
    simp at left
    simp [left]

/-- The window stands between the lines that are left out. -/
theorem exists_range'_eq_window {count : Nat} (first : 1 ≤ position.line)
    (last : position.line ≤ count) :
    ∃ skipped left, List.range' 1 count = skipped ++ window count position ++ left ∧
      (∀ number ∈ skipped, number + 2 < position.line) ∧
      ∀ number ∈ left, position.line + 2 < number := by
  obtain ⟨skip, start⟩ : ∃ skip, max 1 (position.line - 2) = 1 + skip :=
    Nat.exists_eq_add_of_le (Nat.le_max_left _ _)
  obtain ⟨rest, stop⟩ : ∃ rest, count = min count (position.line + 2) + rest :=
    Nat.exists_eq_add_of_le (Nat.min_le_left _ _)
  obtain ⟨shown, size⟩ : ∃ shown, min count (position.line + 2) + 1 = 1 + skip + shown :=
    Nat.exists_eq_add_of_le (by omega)
  refine ⟨List.range' 1 skip, List.range' (1 + skip + shown) rest, ?_, ?_, ?_⟩
  · have whole : count = skip + shown + rest := by omega
    rw [window, start, size, Nat.add_sub_cancel_left, List.range'_append_1, Nat.add_assoc 1 skip,
      List.range'_append_1, ← whole]
  · intro number member
    rw [List.mem_range'_1] at member
    omega
  · intro number member
    rw [List.mem_range'_1] at member
    omega

theorem mem_window {count number : Nat} :
    number ∈ window count position ↔
      (1 ≤ number ∧ number ≤ count) ∧ position.line ≤ number + 2 ∧ number ≤ position.line + 2 := by
  rw [window, List.mem_range'_1]
  omega

/-- The lines of the window are shown, and no others. -/
theorem rows_eq (first : 1 ≤ position.line) (last : position.line ≤ lines.length) :
    rows lines position.line position.column defaultMargin =
      (window lines.length position).flatMap fun number =>
        block position number (lines.getD (number - 1) []) := by
  obtain ⟨skipped, left, split, before, after⟩ := exists_range'_eq_window first last
  rw [rows, markedLine_eq first last, zipIdx_eq_map, List.flatMap_map, split, List.flatMap_append,
    List.flatMap_append]
  have none (others : List Nat)
      (far : ∀ number ∈ others, ¬ (position.line ≤ number + 2 ∧ number ≤ position.line + 2)) :
      (others.flatMap fun number => rowsFor position.line position.column defaultMargin number
        (lines.getD (number - 1) [])) = [] := by
    rw [List.flatMap_eq_nil_iff]
    intro number member
    exact rowsFor_outside _ (far number member)
  rw [none skipped, none left, List.nil_append, List.append_nil, List.flatMap_def, List.flatMap_def]
  · congr 1
    apply List.map_congr_left
    intro number member
    exact rowsFor_inside _ (mem_window.mp member).2
  · intro number member
    have far := after number member
    omega
  · intro number member
    have far := before number member
    omega

end Excerpt

namespace Rows

theorem filter_isDigit_column (width value : Nat) :
    (column width value).filter Char.isDigit = decimal value := by
  have blanks : (List.replicate (width - (decimal value).length) ' ').filter Char.isDigit = [] := by
    rw [List.filter_replicate, if_neg (by decide)]
  have digits : (decimal value).filter Char.isDigit = decimal value := by
    rw [List.filter_eq_self]
    intro c member
    exact isDigit_of_mem_decimal member
  rw [column, List.leftpad, List.filter_append, blanks, digits, List.nil_append]

end Rows

namespace Excerpt

variable {position : Position}

/-- The row of a line is read back. -/
theorem reading?_row {mark : Char} (plain : mark = '>' ∨ mark = ' ') (number : Nat)
    (text : List Char) :
    reading? (mark :: ' ' :: (Rows.column 4 number ++ ' ' :: '|' :: ' ' :: text)) =
      some (number, text) := by
  have front : ∀ c ∈ mark :: ' ' :: (Rows.column 4 number ++ [' ']), (c != '|') = true := by
    intro c member
    rw [bne_iff_ne]
    rintro rfl
    have column : '|' ∉ Rows.column 4 number := Rows.notMem_column (by decide) (by decide) 4 number
    rcases plain with rfl | rfl <;> simp [column] at member
  have row : mark :: ' ' :: (Rows.column 4 number ++ ' ' :: '|' :: ' ' :: text) =
      (mark :: ' ' :: (Rows.column 4 number ++ [' '])) ++ '|' :: ' ' :: text := by simp
  have label : (mark :: ' ' :: (Rows.column 4 number ++ [' '])).filter Char.isDigit =
      Rows.decimal number := by
    have blank : ' '.isDigit = false := by decide
    have other : mark.isDigit = false := by rcases plain with rfl | rfl <;> decide
    rw [List.filter_cons_of_neg (by simp [other]), List.filter_cons_of_neg (by simp [blank]),
      List.filter_append, Rows.filter_isDigit_column, List.filter_cons_of_neg (by simp [blank]),
      List.filter_nil, List.append_nil]
  obtain ⟨digit, digits, decimal⟩ : ∃ digit digits, Rows.decimal number = digit :: digits :=
    List.exists_cons_of_ne_nil Nat.toDigits_ne_nil
  rw [reading?, row, List.takeWhile_append_of_pos front, List.dropWhile_append_of_pos front]
  simp only [List.takeWhile_cons_of_neg, bne_self_eq_false, Bool.false_eq_true, not_false_eq_true,
    List.append_nil, label, decimal]
  rw [← decimal, Rows.decimal, Nat.ofDigitChars_ten_toDigits]
  rfl

/-- The caret has no number. -/
theorem reading?_caretRow (column : Int) : reading? (caretRow column) = none := rfl

theorem filterMap_reading?_block (number : Nat) (text : List Char) :
    (block position number text).filterMap reading? = [(number, text)] := by
  by_cases here : number = position.line
  · simp only [block_eq, here, if_true]
    rw [List.filterMap_cons_some (reading?_row (.inl rfl) _ _),
      List.filterMap_cons_none (reading?_caretRow _), List.filterMap_nil]
  · simp only [block_eq, here, if_false]
    rw [List.filterMap_cons_some (reading?_row (.inr rfl) _ _), List.filterMap_nil]

/-- The rows of a line do not break. -/
theorem newline_notMem_block {number : Nat} {text row : List Char} (plain : '\n' ∉ text)
    (member : row ∈ block position number text) : '\n' ∉ row := by
  have column : '\n' ∉ Rows.column 4 number := Rows.notMem_column (by decide) (by decide) 4 number
  by_cases here : number = position.line
  · simp only [block_eq, here, if_true, List.mem_cons, List.not_mem_nil, or_false] at member
    rcases member with rfl | rfl
    · simp [plain, here ▸ column]
    · simp [caretRow]
  · simp only [block_eq, here, if_false, List.mem_singleton] at member
    rw [member]
    simp [plain, column]

end Excerpt

theorem Position.newline_notMem_of_mem_lines {text line : List UInt8} (member : line ∈ lines text) :
    newline ∉ line := by
  induction text generalizing line with
  | nil =>
      obtain rfl := List.mem_singleton.mp member
      exact List.not_mem_nil
  | cons byte rest ih =>
      by_cases ends : byte = newline
      · rw [ends, lines_cons_newline] at member
        rcases List.mem_cons.mp member with rfl | later
        · exact List.not_mem_nil
        · exact ih later
      · obtain ⟨head, later, following⟩ := exists_lines_eq_cons rest
        rw [following] at ih
        rw [lines_cons ends following] at member
        rcases List.mem_cons.mp member with rfl | others
        · rw [List.mem_cons, not_or]
          exact ⟨Ne.symm ends, ih List.mem_cons_self⟩
        · exact ih (List.mem_cons_of_mem _ others)

namespace Report

theorem newline_notMem_of_mem_sourceLines {source : Array UInt8} {line : List Char}
    (member : line ∈ sourceLines source) : '\n' ∉ line := by
  rw [sourceLines_eq] at member
  obtain ⟨bytes, inside, rfl⟩ := List.mem_map.mp member
  intro ends
  obtain ⟨byte, found, same⟩ := List.mem_map.mp ends
  obtain rfl := Latin1.charOf_injective (same.trans Latin1.charOf_newline.symm)
  exact Position.newline_notMem_of_mem_lines inside found

/-- The position of an offset is in one of the lines. -/
theorem line_locate (source : Array UInt8) (offset : Int) :
    1 ≤ (Position.locate source offset).line ∧
      (Position.locate source offset).line ≤ (sourceLines source).length := by
  rw [sourceLines_eq, List.length_map]
  exact (Position.marks_locate source offset).line

/-- The context of a report has the rows of the lines around its position. -/
theorem split_contextAt (source : Array UInt8) (offset : Int) :
    (contextAt source (Position.locate source offset)).splitOn '\n' =
      (Excerpt.window (sourceLines source).length (Position.locate source offset)).flatMap
        fun number => Excerpt.block (Position.locate source offset) number
          ((sourceLines source).getD (number - 1) []) := by
  obtain ⟨first, last⟩ := line_locate source offset
  rw [contextAt, Excerpt.render, Excerpt.rows_eq first last]
  apply List.splitOn_intercalate
  · intro row member
    obtain ⟨number, shown, inside⟩ := List.mem_flatMap.mp member
    obtain ⟨⟨above, below⟩, -⟩ := Excerpt.mem_window.mp shown
    have place : number - 1 < (sourceLines source).length := by omega
    refine Excerpt.newline_notMem_block ?_ inside
    rw [List.getD_eq_getElem?_getD, List.getElem?_eq_getElem place, Option.getD_some]
    exact newline_notMem_of_mem_sourceLines (List.getElem_mem place)
  · intro empty
    have shown := Excerpt.mem_window.mpr ⟨⟨first, last⟩, Nat.le_add_right _ _, Nat.le_add_right _ _⟩
    have rows := List.flatMap_eq_nil_iff.mp empty _ shown
    contradiction

/--
Every report shows the lines of the source around its position with their numbers, and nothing is
lost: the numbers and the lines can be read back.
-/
theorem context_shows_source_lines (kind : FaultKind) (message : String) (source : Array UInt8)
    (offset : Int) : (make kind message source offset).Shows
      ((source.toList.map fun byte => Char.ofNat byte.toNat).splitOn '\n') := by
  show (make kind message source offset).Shows (sourceLines source)
  obtain ⟨first, last⟩ := line_locate source offset
  have rows := split_contextAt source offset
  refine ⟨⟨first, last⟩, Excerpt.markedLine_eq first last, rows, ?_⟩
  rw [Excerpt.readings, show (make kind message source offset).context =
    contextAt source (Position.locate source offset) from rfl, rows, List.filterMap_flatMap]
  simp only [Excerpt.filterMap_reading?_block]
  rw [← List.map_eq_flatMap]
  rfl

end Report

end Brainfuck
