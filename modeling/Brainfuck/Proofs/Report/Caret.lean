/-
This file compares the place of the caret with the place of the failing command above it.
-/

import Brainfuck.Proofs.Code.Position
import Brainfuck.Proofs.Report.Context
import Mathlib.Data.List.Nodup

namespace Brainfuck

namespace Excerpt

/--
Only one of the rows starts with a mark, and it ends with the text. The next row ends with a caret,
which stands below the given index of the text.
-/
def PointsAt (rows : List (List Char)) (text : List Char) (index : Nat) : Prop :=
  ∃ front label caret back, rows = front ++ (label ++ text) :: caret :: back ∧
    (label ++ text).head? = some '>' ∧
    (∀ row ∈ front ++ caret :: back, row.head? ≠ some '>') ∧
    caret.getLast? = some '^' ∧ caret.length = label.length + index + 1

/-- This stands before a marked line. -/
def markedLabel (number : Nat) : List Char :=
  '>' :: ' ' :: (Rows.column 4 number ++ [' ', '|', ' '])

/-- The label grows once the number needs more than four digits. -/
theorem length_markedLabel_eq_iff (number : Nat) :
    (markedLabel number).length = 9 ↔ number < 10000 := by
  have digits := Nat.length_toDigits_le_iff (b := 10) (n := number) (k := 4) (by decide) (by decide)
  have width : (Rows.column 4 number).length = max 4 (Nat.toDigits 10 number).length :=
    List.length_leftpad
  simp only [markedLabel, List.length_cons, List.length_append, List.length_nil, width]
  omega

variable {position : Position}

theorem block_marked (text : List Char) :
    block position position.line text =
      [markedLabel position.line ++ text, caretRow position.column] := by
  rw [block_eq, if_pos rfl, if_pos rfl]
  simp [markedLabel]

/-- Only the line of the position has a mark. -/
theorem head?_of_mem_block {number : Nat} (other : number ≠ position.line) {text row : List Char}
    (member : row ∈ block position number text) : row.head? ≠ some '>' := by
  rw [block_eq, if_neg other, if_neg other, List.mem_singleton] at member
  rw [member, List.head?_cons]
  decide

theorem head?_caretRow (column : Int) : (caretRow column).head? ≠ some '>' := by
  have blank : (caretRow column).head? = some ' ' := rfl
  rw [blank]
  decide

theorem getLast?_caretRow (column : Int) : (caretRow column).getLast? = some '^' := by
  simp [caretRow, List.getLast?_append, List.getLast?_cons]

theorem length_caretRow (column : Nat) : (caretRow column).length = 9 + (column - 1) + 1 := by
  simp only [caretRow_eq, List.length_append, List.length_cons, List.length_replicate,
    List.length_nil]
  omega

/-- The rows of the marked line stand between rows without a mark. -/
theorem exists_flatMap_eq {count : Nat} (first : 1 ≤ position.line) (last : position.line ≤ count)
    (line : Nat → List Char) :
    ∃ front back, (window count position).flatMap (fun number => block position number (line number)) =
        front ++ (markedLabel position.line ++ line position.line) :: caretRow position.column :: back ∧
      ∀ row ∈ front ++ caretRow position.column :: back, row.head? ≠ some '>' := by
  have shown := mem_window.mpr ⟨⟨first, last⟩, Nat.le_add_right _ 2, Nat.le_add_right _ 2⟩
  obtain ⟨earlier, later, split⟩ := List.append_of_mem shown
  have once : (earlier ++ position.line :: later).Nodup := by
    rw [← split]
    exact List.nodup_range'
  have others : ∀ number ∈ earlier ++ later, number ≠ position.line := by
    rintro number member rfl
    exact (List.nodup_cons.mp (List.nodup_middle.mp once)).1 member
  refine ⟨earlier.flatMap fun number => block position number (line number),
    later.flatMap fun number => block position number (line number), ?_, ?_⟩
  · rw [split, List.flatMap_append, List.flatMap_cons, block_marked]
    rfl
  · intro row member
    rw [List.mem_append, List.mem_cons] at member
    have unmarked (numbers : List Nat) (apart : ∀ number ∈ numbers, number ≠ position.line)
        (inside : row ∈ numbers.flatMap fun number => block position number (line number)) :
        row.head? ≠ some '>' := by
      obtain ⟨number, listed, shown⟩ := List.mem_flatMap.mp inside
      exact head?_of_mem_block (apart number listed) shown
    rcases member with before | rfl | after
    · exact unmarked earlier (fun number listed => others number (List.mem_append_left _ listed)) before
    · exact head?_caretRow _
    · exact unmarked later (fun number listed => others number (List.mem_append_right _ listed)) after

/-- The row with the mark determines the rows around it. -/
theorem pointsAt_iff {front back : List (List Char)} {label text caret : List Char} {index : Nat}
    (marked : (label ++ text).head? = some '>')
    (others : ∀ row ∈ front ++ caret :: back, row.head? ≠ some '>') :
    PointsAt (front ++ (label ++ text) :: caret :: back) text index ↔
      caret.getLast? = some '^' ∧ caret.length = label.length + index + 1 := by
  constructor
  · rintro ⟨otherFront, otherLabel, otherCaret, otherBack, same, otherMarked, -, last, length⟩
    have outside : otherLabel ++ text ∉ front ++ caret :: back := by
      intro member
      exact others _ member otherMarked
    rw [List.mem_append, not_or] at outside
    obtain ⟨-, row, rest⟩ := (List.append_cons_inj_of_notMem outside.1 outside.2).mp same
    obtain rfl := List.append_cancel_right row
    obtain ⟨rfl, -⟩ := List.cons.inj rest
    exact ⟨last, length⟩
  · rintro ⟨last, length⟩
    exact ⟨front, label, caret, back, rfl, marked, others, last, length⟩

end Excerpt

/-- The caret of a report stands below its position exactly if the line has at most four digits. -/
theorem Report.pointsAt_contextAt_iff {source : Array UInt8} {offset : Int} {text : List Char}
    (found : (sourceLines source)[(Position.locate source offset).line - 1]? = some text) :
    Excerpt.PointsAt (Rows.split (contextAt source (Position.locate source offset))) text
        ((Position.locate source offset).column - 1) ↔
      (Position.locate source offset).line < 10000 := by
  obtain ⟨first, last⟩ := line_locate source offset
  obtain ⟨front, back, rows, others⟩ := Excerpt.exists_flatMap_eq first last
    fun number => (sourceLines source).getD (number - 1) []
  rw [List.getD_eq_getElem?_getD, found, Option.getD_some] at rows
  rw [Rows.split, split_contextAt, rows, Excerpt.pointsAt_iff rfl others, Excerpt.length_caretRow,
    ← Excerpt.length_markedLabel_eq_iff]
  have caret := Excerpt.getLast?_caretRow (Position.locate source offset).column
  constructor
  · rintro ⟨-, length⟩
    omega
  · intro length
    exact ⟨caret, by omega⟩

/--
A run that fails shows the line of the failing command, and the caret stands below that command as
long as the number of the line has at most four digits. After that it stands too far to the left.
-/
theorem caret_below_command_iff (program : Program) (limits : Limits) (input : List UInt8)
    (failure : Failure) (last : Machine) (report : Report)
    (failed : (Machine.start program limits input).Finishes (.failed failure) last)
    (reported : failure.report? program = some report) :
    ∃ stopped command text, (Machine.start program limits input).announce.Reaches stopped ∧
      stopped.step = (.failed failure, last) ∧ report.offset = stopped.ip ∧
      program.commandAt? stopped.ip = some command ∧
      (Report.sourceLines program)[report.position.line - 1]? = some text ∧
      text[report.position.column - 1]? = some (Latin1.charOf command.byte) ∧
      (Excerpt.PointsAt (Rows.split report.context) text (report.position.column - 1) ↔
        report.position.line < 10000) := by
  obtain ⟨stopped, offset, cause, command, reached, final, place, rfl, found⟩ :=
    failed.exists_failing_command
  cases reported
  obtain ⟨text, shown, character⟩ := Option.bind_eq_some_iff.mp (Program.readIn?_of_command found)
  refine ⟨stopped, command, text, reached, final, place.symm, ?_, shown, character,
    Report.pointsAt_contextAt_iff shown⟩
  rw [place]
  exact found

/-- The bracket that fails stands in the second line, and the caret is right below it. -/
theorem caret_below_command_iff_second_line :
    ∃ (last : Machine) (report : Report) (text : List Char),
      (Machine.start #[43, 10, 35, 93] ⟨1, 1, none, by decide, by decide⟩ []).Finishes
        (.failed (.fault 3 .unmatchedClose)) last ∧
      (Failure.fault 3 .unmatchedClose).report? #[43, 10, 35, 93] = some report ∧
      report.position = ⟨2, 2⟩ ∧
      Excerpt.PointsAt (Rows.split report.context) text (report.position.column - 1) := by
  have failed : ∃ last, (Machine.start #[43, 10, 35, 93] ⟨1, 1, none, by decide, by decide⟩
      []).Finishes (.failed (.fault 3 .unmatchedClose)) last := ⟨_, 5, rfl⟩
  obtain ⟨last, failed⟩ := failed
  have position : Position.locate #[43, 10, 35, 93] 3 = ⟨2, 2⟩ := by decide
  have few : (Position.locate #[43, 10, 35, 93] 3).line < 10000 := by
    rw [position]
    decide
  obtain ⟨stopped, command, text, -, -, -, -, -, -, points⟩ :=
    caret_below_command_iff _ _ _ _ last _ failed rfl
  exact ⟨last, _, text, failed, rfl, position, points.mpr few⟩

/-- So many empty lines come before a move off the tape. -/
def Program.blankLines (count : Nat) : Program :=
  (List.replicate count Position.newline ++ [Command.left.byte]).toArray

theorem Program.drop_blankLines (count : Nat) :
    (blankLines count).toList.drop 0 =
      List.replicate count Position.newline ++ [Command.left.byte] := rfl

theorem Program.commandAt?_blankLines (count : Nat) :
    (blankLines count).commandAt? count = some .left := by
  have found := commandAt?_of_drop (drop_add_length (drop_blankLines count))
    (Command.ofByte?_byte .left)
  rw [List.length_replicate, Nat.zero_add] at found
  exact found

theorem Program.silent_blankLines (count : Nat) : (blankLines count).Silent 0 count := by
  have silent := silent_of_drop (drop_blankLines count) (by
    intro byte member
    rw [List.eq_of_mem_replicate member]
    rfl)
  rw [List.length_replicate, Nat.zero_add] at silent
  exact silent

theorem Machine.exists_finishes_blankLines (count : Nat) {limits : Limits}
    (unlimited : limits.stepLimit = none) (input : List UInt8) :
    ∃ last, (start (Program.blankLines count) limits input).Finishes
      (.failed (.fault count (.offTape .left))) last := by
  have placed : (start (Program.blankLines count) limits input).announce.At (Program.blankLines count)
      limits.loopDepth 0 [] (start (Program.blankLines count) limits input).memory :=
    ⟨rfl, stepLimit_start unlimited (Program.blankLines count) input, rfl, rfl, rfl, rfl⟩
  obtain ⟨stopped, reached, there⟩ := placed.reaches_silent (Program.silent_blankLines count)
  have found : (Program.blankLines count).commandAt? count = some Basic.left.command :=
    Program.commandAt?_blankLines count
  exact ⟨_, finishes_iff.mpr ⟨_, ends_iff.mpr ⟨stopped, reached, there.fault found rfl⟩, rfl⟩⟩

theorem Position.locate_blankLines (count : Nat) :
    locate (Program.blankLines count) count = ⟨count + 1, 1⟩ := by
  have here : clamp (Program.blankLines count).size count = count := by
    rw [clamp, Program.blankLines, List.size_toArray, List.length_append, List.length_replicate]
    omega
  rw [locate, here, Program.blankLines, List.take_left' List.length_replicate]
  cases count with
  | zero => rfl
  | succ count =>
      rw [List.replicate_succ', after_append_newline List.not_mem_nil, length_lines,
        List.count_replicate_self]
      rfl

/-- After as many lines as four digits can number, the caret misses the failing command. -/
theorem exists_caret_missed_after_blankLines {count : Nat} (many : 9999 ≤ count) {limits : Limits}
    (unlimited : limits.stepLimit = none) (input : List UInt8) :
    ∃ (last : Machine) (report : Report) (text : List Char),
      (Machine.start (Program.blankLines count) limits input).Finishes
        (.failed (.fault count (.offTape .left))) last ∧
      (Failure.fault count (.offTape .left)).report? (Program.blankLines count) = some report ∧
      report.position = ⟨count + 1, 1⟩ ∧
      (Report.sourceLines (Program.blankLines count))[report.position.line - 1]? = some text ∧
      text[report.position.column - 1]? = some '<' ∧
      ¬ Excerpt.PointsAt (Rows.split report.context) text (report.position.column - 1) := by
  obtain ⟨last, failed⟩ := Machine.exists_finishes_blankLines count unlimited input
  have position := Position.locate_blankLines count
  obtain ⟨text, shown, character⟩ := Option.bind_eq_some_iff.mp
    (Program.readIn?_of_command (Program.commandAt?_blankLines count))
  refine ⟨last, _, text, failed, rfl, position, shown, character, ?_⟩
  intro points
  have few := (Report.pointsAt_contextAt_iff shown).mp points
  rw [position] at few
  exact absurd few (Nat.not_lt.mpr (Nat.succ_le_succ many))

/-- Line ten thousand is the first whose number has five digits. -/
theorem caret_misses_command_in_line_ten_thousand :
    ∃ (last : Machine) (report : Report) (text : List Char),
      (Machine.start (Program.blankLines 9999) ⟨30000, 1000, none, by decide, by decide⟩ []).Finishes
        (.failed (.fault (9999 : Nat) (.offTape .left))) last ∧
      (Failure.fault (9999 : Nat) (.offTape .left)).report? (Program.blankLines 9999) =
        some report ∧
      report.position = ⟨10000, 1⟩ ∧
      (Report.sourceLines (Program.blankLines 9999))[report.position.line - 1]? = some text ∧
      text[report.position.column - 1]? = some '<' ∧
      ¬ Excerpt.PointsAt (Rows.split report.context) text (report.position.column - 1) :=
  exists_caret_missed_after_blankLines (Nat.le_refl 9999) rfl []

end Brainfuck
