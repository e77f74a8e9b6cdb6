/-
This file shows that a line and a column name exactly one place of a text.
-/

import Brainfuck.Proofs.Session.WellFormed

namespace Brainfuck

namespace Position

/-- Only the newline byte ends a line. -/
def lines (text : List UInt8) : List (List UInt8) := text.splitOn newline

/-- The lines take so many bytes if a newline follows each of them. -/
def span : List (List UInt8) → Nat
  | [] => 0
  | line :: rest => line.length + 1 + span rest

/-- The position names a byte of one of the lines, or the place behind it, and has this offset. -/
structure Marks (lines : List (List UInt8)) (position : Position) (offset : Int) : Prop where
  line : 1 ≤ position.line ∧ position.line ≤ lines.length
  column : 1 ≤ position.column ∧
    ∀ text, lines[position.line - 1]? = some text → position.column ≤ text.length + 1
  offset : offset = span (lines.take (position.line - 1)) + position.column - 1

/-- The line decides, and in the same line the column. -/
def Before (first second : Position) : Prop :=
  first.line < second.line ∨ first.line = second.line ∧ first.column < second.column

/-- This is what stands in the column of the line. -/
def readIn? {α : Type} (position : Position) (lines : List (List α)) : Option α :=
  lines[position.line - 1]?.bind fun text => text[position.column - 1]?

theorem exists_lines_eq_cons (text : List UInt8) : ∃ head later, lines text = head :: later :=
  List.exists_cons_of_ne_nil (List.splitOn_ne_nil newline text)

theorem lines_cons_newline (text : List UInt8) : lines (newline :: text) = [] :: lines text := by
  simp [lines, List.splitOn_cons_eq_if_modifyHead]

theorem lines_cons {byte : UInt8} {text head : List UInt8} {later : List (List UInt8)}
    (plain : byte ≠ newline) (following : lines text = head :: later) :
    lines (byte :: text) = (byte :: head) :: later := by
  rw [lines] at following ⊢
  rw [List.splitOn_cons_eq_if_modifyHead, following]
  simp [plain]

/-- What stands before the first newline belongs to the first line. -/
theorem lines_append {lead back head : List UInt8} {later : List (List UInt8)}
    (plain : newline ∉ lead) (following : lines back = head :: later) :
    lines (lead ++ back) = (lead ++ head) :: later := by
  induction lead with
  | nil => exact following
  | cons byte rest ih =>
      rw [List.mem_cons, not_or] at plain
      exact lines_cons (Ne.symm plain.1) (ih plain.2)

theorem lines_append_newline (front back : List UInt8) :
    lines (front ++ newline :: back) = lines front ++ lines back :=
  List.splitOn_append_cons_self front back

theorem length_lines (text : List UInt8) : (lines text).length = text.count newline + 1 := by
  induction text with
  | nil => rfl
  | cons byte rest ih =>
      by_cases ends : byte = newline
      · rw [ends, lines_cons_newline, List.length_cons, ih, List.count_cons_self]
      · obtain ⟨head, later, following⟩ := exists_lines_eq_cons rest
        rw [following] at ih
        rw [lines_cons ends following, List.count_cons_of_ne ends, ← ih]
        rfl

/-- The lines of a text cover it together with one more newline. -/
theorem span_lines (text : List UInt8) : span (lines text) = text.length + 1 := by
  induction text with
  | nil => rfl
  | cons byte rest ih =>
      by_cases ends : byte = newline
      · rw [ends, lines_cons_newline, span, ih, List.length_cons, List.length_nil]
        omega
      · obtain ⟨head, later, following⟩ := exists_lines_eq_cons rest
        rw [following] at ih
        rw [lines_cons ends following]
        simp only [span, List.length_cons] at ih ⊢
        omega

theorem takeWhile_reverse_append {lead : List UInt8} (plain : newline ∉ lead) (rest : List UInt8) :
    (lead.reverse ++ rest).takeWhile (· != newline) =
      lead.reverse ++ rest.takeWhile (· != newline) := by
  apply List.takeWhile_append_of_pos
  intro byte member
  rw [bne_iff_ne]
  rintro rfl
  exact plain (List.mem_reverse.mp member)

theorem after_of_notMem {lead : List UInt8} (plain : newline ∉ lead) :
    after lead = ⟨1, lead.length + 1⟩ := by
  have whole := takeWhile_reverse_append plain []
  rw [List.append_nil, List.takeWhile_nil, List.append_nil] at whole
  rw [after, whole, List.count_eq_zero.mpr plain, List.length_reverse]

theorem after_append_newline {lead : List UInt8} (plain : newline ∉ lead) (prior : List UInt8) :
    after (prior ++ newline :: lead) = ⟨(lines prior).length + 1, lead.length + 1⟩ := by
  have last := takeWhile_reverse_append plain ([newline] ++ prior.reverse)
  rw [List.singleton_append, List.takeWhile_cons_of_neg (by simp), List.append_nil] at last
  rw [after, List.reverse_append, List.reverse_cons, List.append_assoc, List.singleton_append, last,
    List.count_append, List.count_cons_self, List.count_eq_zero.mpr plain, length_lines,
    List.length_reverse, Nat.zero_add]

/--
The line of a place begins with what stands before the place and ends with what follows it, and the
place has the position after the text before it.
-/
structure Around (front back : List UInt8) (prior : List (List UInt8)) (lead head : List UInt8)
    (later : List (List UInt8)) : Prop where
  lines : lines (front ++ back) = prior ++ (lead ++ head) :: later
  following : Position.lines back = head :: later
  position : after front = ⟨prior.length + 1, lead.length + 1⟩
  span : span prior + lead.length = front.length

theorem exists_around (front back : List UInt8) :
    ∃ prior lead head later, Around front back prior lead head later := by
  obtain ⟨head, later, following⟩ := exists_lines_eq_cons back
  by_cases plain : newline ∈ front
  · -- The line begins after the last newline of the text before the place.
    obtain ⟨lead, earlier, reversed, none⟩ := List.eq_append_cons_of_mem (List.mem_reverse.mpr plain)
    have split : front = earlier.reverse ++ newline :: lead.reverse := by
      rw [← List.reverse_reverse front, reversed]
      simp
    have plain : newline ∉ lead.reverse := by simpa using none
    refine ⟨lines earlier.reverse, lead.reverse, head, later, ?_, following, ?_, ?_⟩
    · rw [split, List.append_assoc, List.cons_append, lines_append_newline,
        lines_append plain following]
    · rw [split, after_append_newline plain]
    · rw [split, span_lines, List.length_append, List.length_cons]
      omega
  · exact ⟨[], front, head, later, lines_append plain following, following, after_of_notMem plain,
      Nat.zero_add _⟩

namespace Around

variable {front back lead head : List UInt8} {prior later : List (List UInt8)}

/-- The place of a position is found again in the lines. -/
theorem marks (around : Around front back prior lead head later) :
    Marks (Position.lines (front ++ back)) (after front) front.length where
  line := by
    rw [around.lines, around.position]
    simp
  column := by
    rw [around.lines, around.position]
    simp
  offset := by
    have length := around.span
    rw [around.lines, around.position]
    simp only [Nat.add_sub_cancel, List.take_left]
    omega

/-- A byte that does not end the line stands in the line at its position. -/
theorem readIn?_eq {byte : UInt8} {rest : List UInt8}
    (around : Around front (byte :: rest) prior lead head later) (plain : byte ≠ newline) :
    (after front).readIn? (Position.lines (front ++ byte :: rest)) = some byte := by
  obtain ⟨tail, others, following⟩ := exists_lines_eq_cons rest
  have first := around.following.symm.trans (lines_cons plain following)
  obtain ⟨rfl, -⟩ := List.cons.inj first
  rw [readIn?, around.lines, around.position]
  simp

end Around

theorem span_append (first second : List (List UInt8)) :
    span (first ++ second) = span first + span second := by
  induction first with
  | nil => exact (Nat.zero_add _).symm
  | cons line rest ih =>
      rw [List.cons_append, span, span, ih]
      omega

theorem span_take_succ {lines : List (List UInt8)} {index : Nat} {text : List UInt8}
    (found : lines[index]? = some text) :
    span (lines.take (index + 1)) = span (lines.take index) + (text.length + 1) := by
  rw [List.take_add_one, found, span_append]
  rfl

theorem span_take_le (lines : List (List UInt8)) {first second : Nat} (le : first ≤ second) :
    span (lines.take first) ≤ span (lines.take second) := by
  obtain ⟨more, rfl⟩ := Nat.exists_eq_add_of_le le
  rw [List.take_add, span_append]
  exact Nat.le_add_right _ _

theorem before_or_eq_or_before (first second : Position) :
    first.Before second ∨ first = second ∨ second.Before first := by
  obtain ⟨line, column⟩ := first
  obtain ⟨otherLine, otherColumn⟩ := second
  simp only [Before, mk.injEq]
  omega

namespace Marks

variable {lines : List (List UInt8)} {first second : Position} {start stop : Int}

/-- An earlier position has a smaller offset. -/
theorem lt_of_before (left : Marks lines first start) (right : Marks lines second stop)
    (before : first.Before second) : start < stop := by
  have column := right.column.1
  rw [left.offset, right.offset]
  rcases before with earlier | ⟨same, before⟩
  · have place : first.line - 1 < lines.length := by
      have bounds := left.line
      omega
    have found := List.getElem?_eq_getElem place
    have fits := left.column.2 _ found
    have line := span_take_succ found
    have above : first.line - 1 + 1 ≤ second.line - 1 := by
      have bounds := left.line
      omega
    have covered := span_take_le lines above
    omega
  · rw [same]
    omega

/-- At most one position has this offset. -/
theorem unique (left : Marks lines first start) (right : Marks lines second start) :
    first = second := by
  rcases before_or_eq_or_before first second with before | same | before
  · exact absurd (left.lt_of_before right before) (Int.lt_irrefl start)
  · exact same
  · exact absurd (right.lt_of_before left before) (Int.lt_irrefl start)

/-- A smaller offset has an earlier position. -/
theorem before_of_lt (left : Marks lines first start) (right : Marks lines second stop)
    (less : start < stop) : first.Before second := by
  rcases before_or_eq_or_before first second with before | same | before
  · exact before
  · have equal : start = stop := by rw [left.offset, right.offset, same]
    omega
  · have greater := right.lt_of_before left before
    omega

end Marks

/-- The position of an offset has that offset, moved to the nearest end of the text. -/
theorem marks_locate (source : Array UInt8) (offset : Int) :
    Marks (lines source.toList) (locate source offset) (max 0 (min offset source.size)) := by
  obtain ⟨prior, lead, head, later, around⟩ :=
    exists_around (source.toList.take (clamp source.size offset))
      (source.toList.drop (clamp source.size offset))
  have marks := around.marks
  have length : ((source.toList.take (clamp source.size offset)).length : Int) =
      max 0 (min offset source.size) := by
    rw [List.length_take, Array.length_toList, clamp]
    omega
  rw [List.take_append_drop, length] at marks
  exact marks

theorem marks_locate_of_inside {source : Array UInt8} {offset : Int} (nonneg : 0 ≤ offset)
    (inside : offset ≤ source.size) : Marks (lines source.toList) (locate source offset) offset := by
  have marks := marks_locate source offset
  have same : max 0 (min offset source.size) = offset := by omega
  rw [same] at marks
  exact marks

/-- A byte stands at its position, unless it ends the line. -/
theorem readIn?_locate {source : Array UInt8} {offset : Nat} {byte : UInt8}
    (found : source[offset]? = some byte) (plain : byte ≠ newline) :
    (locate source offset).readIn? (lines source.toList) = some byte := by
  obtain ⟨inside, value⟩ := Array.getElem?_eq_some_iff.mp found
  have here : clamp source.size offset = offset := by
    rw [clamp]
    omega
  have drop : source.toList.drop offset = byte :: source.toList.drop (offset + 1) := by
    rw [List.drop_eq_getElem_cons (by simpa using inside), Array.getElem_toList, value]
  obtain ⟨prior, lead, head, later, around⟩ :=
    exists_around (source.toList.take offset) (byte :: source.toList.drop (offset + 1))
  have read := around.readIn?_eq plain
  rw [← drop, List.take_append_drop] at read
  rw [locate, here]
  exact read

end Position

theorem Latin1.charOf_newline : charOf Position.newline = '\n' := by decide

/-- The lines can be taken before or after the decoding. -/
theorem Latin1.split_decode (text : List UInt8) :
    Rows.split (decode text) = (Position.lines text).map decode := by
  induction text with
  | nil => rfl
  | cons byte rest ih =>
      obtain ⟨head, later, following⟩ := Position.exists_lines_eq_cons rest
      rw [following] at ih
      rw [Rows.split] at ih ⊢
      rw [decode, List.map_cons, ← decode, List.splitOn_cons_eq_if_modifyHead, ih]
      by_cases ends : byte = Position.newline
      · simp [ends, charOf_newline, Position.lines_cons_newline, following, decode]
      · have other : charOf byte ≠ '\n' := by
          rw [← charOf_newline]
          exact fun same => ends (charOf_injective same)
        simp [Position.lines_cons ends following, other, decode]

theorem Report.sourceLines_eq (source : Array UInt8) :
    sourceLines source = (Position.lines source.toList).map Latin1.decode :=
  Latin1.split_decode source.toList

theorem Position.readIn?_sourceLines (position : Position) (source : Array UInt8) :
    position.readIn? (Report.sourceLines source) =
      (position.readIn? (lines source.toList)).map Latin1.charOf := by
  rw [Report.sourceLines_eq, readIn?, readIn?, List.getElem?_map]
  cases (lines source.toList)[position.line - 1]? with
  | none => rfl
  | some text => simp [Latin1.decode]

theorem Command.byte_ne_newline (command : Command) : command.byte ≠ Position.newline := by
  cases command <;> decide

/-- A command is shown at its position. -/
theorem Program.readIn?_of_command {program : Program} {offset : Nat} {command : Command}
    (found : program.commandAt? offset = some command) :
    (Position.locate program offset).readIn? (Report.sourceLines program) =
      some (Latin1.charOf command.byte) := by
  obtain ⟨byte, present, decoded⟩ := commandAt?_eq_some.mp found
  obtain rfl := Command.ofByte?_eq_some.mp decoded
  rw [byteAt?_natCast] at present
  rw [Position.readIn?_sourceLines, Position.readIn?_locate present command.byte_ne_newline,
    Option.map_some]

/-- A run that fails has come to a command and fails there. -/
theorem Machine.Finishes.exists_failing_command {program : Program} {limits : Limits}
    {input : List UInt8} {failure : Failure} {last : Machine}
    (failed : (start program limits input).Finishes (.failed failure) last) :
    ∃ (stopped : Machine) (offset : Nat) (cause : Fault) (command : Command),
      (start program limits input).announce.Reaches stopped ∧
      stopped.step = (.failed failure, last) ∧ stopped.ip = offset ∧
      failure = .fault offset cause ∧ program.commandAt? offset = some command := by
  obtain ⟨_, ended, rfl⟩ := finishes_iff.mp failed
  have formed : (start program limits input).announce.WellFormed program limits :=
    { WellFormed.start program limits input with }
  obtain ⟨stopped, place, cause, reached, kept, rfl, final⟩ := formed.exists_fault ended
  obtain ⟨rfl, command, found⟩ := step_fault final
  obtain ⟨offset, here⟩ := Int.eq_ofNat_of_zero_le kept.nonneg
  rw [kept.text, here] at found
  exact ⟨stopped, offset, cause, command, reached, final, here, by rw [here], found⟩

open Position in
/--
The position of an offset is the only one that has this offset in the lines of the text. A run that
fails at a command reports the position of that command, and later places have later positions.
-/
theorem locate_identifies_offset (program : Program) :
    (∀ (offset : Int) (position : Position),
      Marks (lines program.toList) position (max 0 (min offset program.size)) ↔
        position = locate program offset) ∧
    (∀ limits input failure last report,
      (Machine.start program limits input).Finishes (.failed failure) last →
      failure.report? program = some report →
        ∃ stopped command, (Machine.start program limits input).announce.Reaches stopped ∧
          stopped.step = (.failed failure, last) ∧ report.offset = stopped.ip ∧
          program.commandAt? stopped.ip = some command ∧
          report.position.readIn? (Report.sourceLines program) =
            some (Latin1.charOf command.byte)) ∧
    ∀ first second : Int, 0 ≤ first → first ≤ program.size → 0 ≤ second → second ≤ program.size →
      (locate program first = locate program second → first = second) ∧
      (first < second → (locate program first).Before (locate program second)) := by
  refine ⟨?_, ?_, ?_⟩
  · intro offset position
    constructor
    · intro marks
      exact marks.unique (marks_locate program offset)
    · rintro rfl
      exact marks_locate program offset
  · intro limits input failure last report failed reported
    obtain ⟨stopped, offset, cause, command, reached, final, place, rfl, found⟩ :=
      failed.exists_failing_command
    cases reported
    refine ⟨stopped, command, reached, final, place.symm, ?_, Program.readIn?_of_command found⟩
    rw [place]
    exact found
  · intro first second nonneg inside otherNonneg otherInside
    have left := marks_locate_of_inside nonneg inside
    have right := marks_locate_of_inside otherNonneg otherInside
    constructor
    · intro same
      rw [left.offset, right.offset, same]
    · exact left.before_of_lt right

/-- The closing bracket is the second byte of the third line, and the second line is empty. -/
theorem locate_identifies_offset_third_line :
    ∃ (last : Machine) (report : Report) (stopped : Machine),
      (Machine.start #[43, 10, 10, 35, 93] ⟨1, 1, none, by decide, by decide⟩ []).Finishes
        (.failed (.fault 4 .unmatchedClose)) last ∧
      (Failure.fault 4 .unmatchedClose).report? #[43, 10, 10, 35, 93] = some report ∧
      report.position = ⟨3, 2⟩ ∧ report.offset = stopped.ip ∧
      ∃ command, Program.commandAt? #[43, 10, 10, 35, 93] stopped.ip = some command ∧
        report.position.readIn? (Report.sourceLines #[43, 10, 10, 35, 93]) =
          some (Latin1.charOf command.byte) := by
  have failed : ∃ last, (Machine.start #[43, 10, 10, 35, 93] ⟨1, 1, none, by decide, by decide⟩
      []).Finishes (.failed (.fault 4 .unmatchedClose)) last := ⟨_, 6, rfl⟩
  obtain ⟨last, failed⟩ := failed
  obtain ⟨stopped, command, -, -, place, found, read⟩ :=
    (locate_identifies_offset #[43, 10, 10, 35, 93]).2.1 _ _ _ last _ failed rfl
  have position : Position.locate #[43, 10, 10, 35, 93] 4 = ⟨3, 2⟩ := by decide
  exact ⟨last, _, stopped, failed, rfl, position, place, command, found, read⟩

end Brainfuck
