/-
This file computes the end of a program without loops and without input or output.
-/

import Brainfuck.Evaluation
import Brainfuck.Proofs.Code.Alignment
import Brainfuck.Proofs.Code.Walk

namespace Brainfuck

/-- No command moves the cursor further than to the next cell. -/
theorem Command.shift_bounds (command : Command) : -1 ≤ command.shift ∧ command.shift ≤ 1 := by
  cases command <;> decide

theorem Byte.toNat_ofInt (value : Int) : ((UInt8.ofInt value).toNat : Int) = value % 256 := by
  show ((UInt8.ofNat (value % 256).toNat).toNat : Int) = value % 256
  rw [UInt8.toNat_ofNat']
  omega

namespace Walk

/-- The cursor of a new tape is at this cell after the first commands. -/
def place (commands : List Command) (count : Nat) : Int :=
  (commands.take count).count .right - (commands.take count).count .left

/-- So often is the command given while the cursor is at the cell. -/
def given (command : Command) (commands : List Command) (cell : Int) : Nat :=
  (List.range commands.length).countP fun index =>
    commands[index]? = some command ∧ place commands index = cell

/-- The commands up to the given count stay on a tape of this size. -/
def StaysOn (size : Nat) (commands : List Command) (count : Nat) : Prop :=
  ∀ earlier ≤ count, 0 ≤ place commands earlier ∧ place commands earlier < size

/-- The commands leave a new tape of this size with these cells and this cursor. -/
structure Leaves (commands : List Command) (tapeSize : Nat) (cells : Array UInt8) (cursor : Nat) :
    Prop where
  size : cells.size = tapeSize
  place : (cursor : Int) = Walk.place commands commands.length
  values : ∀ index < tapeSize, ∃ cell, cells[index]? = some cell ∧
    (cell.toNat : Int) =
      ((given .increment commands index : Int) - given .decrement commands index) % 256

theorem displacement_eq_count (commands : List Command) :
    displacement commands = (commands.count .right : Int) - commands.count .left := by
  induction commands with
  | nil => rfl
  | cons command rest ih =>
      rw [displacement_cons, ih]
      cases command <;> simp [Command.shift] <;> omega

theorem place_eq (commands : List Command) (count : Nat) :
    place commands count = displacement (commands.take count) :=
  (displacement_eq_count _).symm

theorem place_zero (commands : List Command) : place commands 0 = 0 := rfl

theorem place_succ_cons (command : Command) (rest : List Command) (count : Nat) :
    place (command :: rest) (count + 1) = command.shift + place rest count := by
  rw [place_eq, place_eq, List.take_succ_cons, displacement_cons]

/-- The next command moves the cursor by its shift. -/
theorem place_succ {commands : List Command} {count : Nat} {command : Command}
    (found : commands[count]? = some command) :
    place commands (count + 1) = place commands count + command.shift := by
  induction commands generalizing count with
  | nil => contradiction
  | cons first rest ih =>
      cases count with
      | zero =>
          cases found
          rw [place_succ_cons, place_zero, place_zero, Int.add_comm]
      | succ count =>
          rw [place_succ_cons, place_succ_cons, ih found]
          omega

/-- Only the commands that were given before count for a place. -/
theorem place_take {commands : List Command} {count earlier : Nat} (le : earlier ≤ count) :
    place (commands.take count) earlier = place commands earlier := by
  rw [place, List.take_take, Nat.min_eq_left le, place]

theorem place_of_take (commands : List Command) (count : Nat) :
    place (commands.take count) (commands.take count).length = place commands count := by
  rw [place, List.take_length, place]

/-- What is given after the first command is seen from the place to which that command leads. -/
theorem given_cons (command first : Command) (rest : List Command) (cell : Int) :
    given command (first :: rest) cell =
      (if first = command ∧ cell = 0 then 1 else 0) + given command rest (cell - first.shift) := by
  have later (index : Nat) : place (first :: rest) (index + 1) = cell ↔
      place rest index = cell - first.shift := by
    rw [place_succ_cons]
    omega
  rw [given, List.length_cons, List.range_succ_eq_map, List.countP_cons, List.countP_map, given,
    Nat.add_comm]
  congr 1
  · simp [place_zero, eq_comm (a := cell)]
  · simp [Function.comp_def, later]

/-- Every cell changes by the difference of what is given at it. -/
theorem change_eq_given (commands : List Command) (cell : Int) :
    change commands cell =
      (given .increment commands cell : Int) - given .decrement commands cell := by
  induction commands generalizing cell with
  | nil => rfl
  | cons command rest ih =>
      rw [change, ih, given_cons, given_cons]
      by_cases here : cell = 0
      · cases command <;> simp [Command.gain, here] <;> omega
      · simp [here]

instance (size : Nat) (commands : List Command) (count : Nat) :
    Decidable (StaysOn size commands count) :=
  inferInstanceAs (Decidable (∀ earlier ≤ count,
    0 ≤ place commands earlier ∧ place commands earlier < size))

/-- Commands that do not stay on the tape leave it at one of its ends for the first time. -/
theorem exists_first_departure {size : Nat} (positive : 0 < size) {commands : List Command}
    {count : Nat} (within : count ≤ commands.length) (departs : ¬ StaysOn size commands count) :
    ∃ earlier command, commands[earlier]? = some command ∧ StaysOn size commands earlier ∧
      (place commands (earlier + 1) = -1 ∨ place commands (earlier + 1) = size) := by
  induction count with
  | zero =>
      refine absurd ?_ departs
      intro earlier le
      rw [Nat.le_zero.mp le, place_zero]
      omega
  | succ count ih =>
      by_cases stays : StaysOn size commands count
      · have found := List.getElem?_eq_getElem within
        refine ⟨count, _, found, stays, ?_⟩
        have here := stays count (Nat.le_refl count)
        have next := place_succ found
        have off : ¬ (0 ≤ place commands (count + 1) ∧ place commands (count + 1) < size) := by
          intro on
          refine departs ?_
          intro earlier le
          rcases Nat.le_succ_iff.mp le with before | rfl
          · exact stays earlier before
          · exact on
        have short := Command.shift_bounds commands[count]
        omega
      · exact ih (Nat.le_of_succ_le within) stays

/-- A blank tape that the commands have changed is as they leave it. -/
theorem leaves_of_adjusted {size : Nat} (positive : 0 < size) {commands : List Command} {tape : Tape}
    (adjusted : (Tape.blank size positive).Adjusted tape (displacement commands) (change commands)) :
    Leaves commands size tape.cells tape.cursor where
  size := adjusted.size_eq.trans (Tape.size_blank size positive)
  place := by
    rw [adjusted.cursor, place_eq, List.take_length]
    exact Int.zero_add _
  values := by
    intro index inside
    have zero : (Tape.blank size positive).cells[index]? = some 0 := by
      simp [Tape.blank, inside]
    refine ⟨_, by rw [adjusted.cells, zero, Option.map_some], ?_⟩
    have distance : (index : Int) - (Tape.blank size positive).cursor = index := Int.sub_zero _
    rw [distance, UInt8.zero_add, ← change_eq_given]
    exact Byte.toNat_ofInt _

/-- A blank tape allows the commands that stay on it. -/
theorem StaysOn.allows {size : Nat} (positive : 0 < size) {commands : List Command} {count : Nat}
    (stays : StaysOn size commands count) :
    (Tape.blank size positive).Allows (commands.take count) := by
  intro earlier within
  have le : earlier ≤ count := by
    rw [List.length_take] at within
    omega
  have inside := stays earlier le
  rw [← place_take le, place_eq] at inside
  rw [Tape.size_blank]
  simpa [Tape.blank] using inside

end Walk

/-- A command and its ordinal give the part of the text that stands before it. -/
theorem Program.exists_front_of_command {program : Program} {count : Nat} {command : Command}
    (found : program.commands[count]? = some command) :
    ∃ front byte back, program.toList = front ++ byte :: back ∧
      Command.ofByte? byte = some command ∧
      front.filterMap Command.ofByte? = program.commands.take count ∧
      program.commandOffsets[count]? = some front.length := by
  obtain ⟨inside, rfl⟩ := List.getElem?_eq_some_iff.mp found
  have split : program.toList.filterMap Command.ofByte? =
      program.commands.take count ++ program.commands[count] :: program.commands.drop (count + 1) := by
    rw [← List.drop_eq_getElem_cons inside, List.take_append_drop]
    rfl
  obtain ⟨first, second, text, before, after⟩ := List.filterMap_eq_append_iff.mp split
  obtain ⟨lead, byte, back, rfl, plain, decoded, rest⟩ := List.filterMap_eq_cons_iff.mp after
  have whole : program.toList = (first ++ lead) ++ byte :: back := by
    rw [text, List.append_assoc]
  have here : program.toList.drop (first ++ lead).length = byte :: back := by
    rw [whole, List.drop_left]
  refine ⟨first ++ lead, byte, back, whole, decoded, ?_, ?_⟩
  · rw [List.filterMap_append, before, List.filterMap_eq_nil_iff.mpr plain, List.append_nil]
  · have ordinal : (program.offsetsBefore (first ++ lead).length).length = count := by
      have total := program.length_offsetsBefore (first ++ lead).length
      rw [commandsFrom, here, List.filterMap_cons, decoded, rest, List.length_cons,
        List.length_drop] at total
      omega
    have offset := commandOffsets_getElem? (commandAt?_of_drop here decoded)
    rw [ordinal] at offset
    exact offset

namespace Machine

/-- A command that leads off the tape fails and names the end that it would pass. -/
theorem step_of_departure {machine : Machine} {command : Command}
    (unlimited : machine.stepLimit = none)
    (found : machine.program.commandAt? machine.ip = some command) (walks : command.walks = true)
    (departs : machine.tape.cursor + command.shift = -1 ∨
      machine.tape.cursor + command.shift = machine.tape.size) :
    ∃ edge, machine.step = (.failed (.fault machine.ip (.offTape edge)), machine.counted) ∧
      (machine.tape.cursor + command.shift = -1 ∧ edge = .left ∨
        machine.tape.cursor + command.shift = machine.tape.size ∧
          edge = .right (machine.tape.size - 1)) := by
  have inside : machine.tape.cursor < machine.tape.size := machine.tape.inside
  have stepped := step_command found (spentLimit?_of_unlimited unlimited)
  have back : machine.counted.ip - 1 = machine.ip := Int.add_sub_cancel _ _
  cases command with
  | right =>
      simp only [Command.shift] at departs ⊢
      have last : machine.counted.tape.advance? = none :=
        Tape.advance?_eq_none.mpr (show machine.tape.cursor + 1 = machine.tape.size by omega)
      refine ⟨.right (machine.tape.size - 1), ?_, .inr ⟨by omega, rfl⟩⟩
      rw [stepped, execute, last, ← back]
      rfl
  | left =>
      simp only [Command.shift] at departs ⊢
      have first : machine.counted.tape.retreat? = none :=
        Tape.retreat?_eq_none.mpr (show machine.tape.cursor = 0 by omega)
      refine ⟨.left, ?_, .inl ⟨by omega, rfl⟩⟩
      rw [stepped, execute, first, ← back]
      rfl
  | increment | decrement =>
      simp only [Command.shift] at departs
      omega
  | output | input | loopOpen | loopClose => contradiction

/-- The machine has passed the first commands of the text, which changed nothing but the tape. -/
structure Walked (machine : Machine) (program : Program) (tapeSize count offset : Nat) : Prop where
  text : machine.program = program
  unlimited : machine.stepLimit = none
  place : machine.ip = offset
  steps : machine.steps = count
  output : machine.output = #[]
  frames : machine.loops.frames = []
  leaves : Walk.Leaves (program.commands.take count) tapeSize machine.tape.cells machine.tape.cursor

section Start

variable {program : Program} {limits : Limits} (unlimited : limits.stepLimit = none)
  (walks : ∀ command ∈ program.commands, command.walks = true) (input : List UInt8)

include unlimited walks

/-- A new machine passes the first commands of its text if they stay on the tape. -/
theorem exists_walked_of_staysOn {front back : List UInt8} {count : Nat}
    (text : program.toList = front ++ back) (within : count ≤ program.commands.length)
    (spelled : front.filterMap Command.ofByte? = program.commands.take count)
    (stays : Walk.StaysOn limits.tapeSize program.commands count) :
    ∃ stopped, (start program limits input).announce.Reaches stopped ∧
      stopped.Walked program limits.tapeSize count front.length := by
  have place : (start program limits input).announce.ip = (0 : Nat) := rfl
  have kept : (start program limits input).announce.stepLimit = none :=
    stepLimit_start unlimited program input
  have allows := stays.allows limits.hasCell
  have first : ∀ command ∈ program.commands.take count, command.walks = true := by
    intro command member
    exact walks command (List.mem_of_mem_take member)
  rw [← spelled] at allows first
  obtain ⟨tape, adjusted, reached⟩ := exists_reaches_of_walks kept place text first allows
  rw [spelled] at adjusted
  refine ⟨_, reached, ?_⟩
  exact {
    text := rfl
    unlimited := kept
    place := congrArg Nat.cast (Nat.zero_add _)
    steps := by
      show 0 + (front.filterMap Command.ofByte?).length = count
      rw [spelled, List.length_take, Nat.zero_add, Nat.min_eq_left within]
    output := rfl
    frames := rfl
    leaves := Walk.leaves_of_adjusted limits.hasCell adjusted }

/-- A text that stays on the tape is passed as a whole. -/
theorem exists_finishes_of_staysOn
    (stays : Walk.StaysOn limits.tapeSize program.commands program.commands.length) :
    ∃ last, (start program limits input).Finishes .completed last ∧
      last.Walked program limits.tapeSize program.commands.length program.size := by
  obtain ⟨stopped, reached, walked⟩ := exists_walked_of_staysOn unlimited walks input
    (List.append_nil _).symm (Nat.le_refl _) List.take_length.symm stays
  have past : stopped.program.size ≤ stopped.ip := by
    rw [walked.text]
    exact Int.le_of_eq walked.place.symm
  refine ⟨_, finishes_iff.mpr ⟨_, ends_iff.mpr ⟨_, reached, step_of_size_le past⟩, rfl⟩, ?_⟩
  rw [close_eq]
  exact { walked with }

/-- The first command that leads off the tape stops the machine. -/
theorem exists_finishes_of_departure {count : Nat} {command : Command}
    (found : program.commands[count]? = some command)
    (stays : Walk.StaysOn limits.tapeSize program.commands count)
    (departs : Walk.place program.commands (count + 1) = -1 ∨
      Walk.place program.commands (count + 1) = limits.tapeSize) :
    ∃ (offset : Nat) (edge : Tape.Edge) (stopped : Machine),
      program.commandOffsets[count]? = some offset ∧
      (start program limits input).Finishes (.failed (.fault offset (.offTape edge)))
        stopped.counted ∧
      stopped.Walked program limits.tapeSize count offset ∧
      (Walk.place program.commands (count + 1) = -1 ∧ edge = .left ∨
        Walk.place program.commands (count + 1) = limits.tapeSize ∧
          edge = .right (limits.tapeSize - 1)) := by
  obtain ⟨front, byte, back, text, decoded, spelled, ordinal⟩ :=
    Program.exists_front_of_command found
  have within : count < program.commands.length := (List.getElem?_eq_some_iff.mp found).1
  obtain ⟨stopped, reached, walked⟩ := exists_walked_of_staysOn unlimited walks input text
    (Nat.le_of_lt within) spelled stays
  have here : program.toList.drop front.length = byte :: back := by rw [text, List.drop_left]
  have present : stopped.program.commandAt? stopped.ip = some command := by
    rw [walked.text, walked.place]
    exact Program.commandAt?_of_drop here decoded
  have cursor : stopped.tape.cursor + command.shift = Walk.place program.commands (count + 1) := by
    rw [walked.leaves.place, Walk.place_of_take, Walk.place_succ found]
  have size : stopped.tape.size = limits.tapeSize := walked.leaves.size
  rw [← cursor, ← size] at departs
  obtain ⟨edge, failed, passed⟩ := step_of_departure walked.unlimited present
    (walks command (List.mem_of_getElem? found)) departs
  rw [walked.place] at failed
  rw [cursor, size] at passed
  exact ⟨front.length, edge, stopped, ordinal,
    finishes_iff.mpr ⟨_, ends_iff.mpr ⟨stopped, reached, failed⟩, rfl⟩, walked, passed⟩

end Start

end Machine

/-- A text that can be encoded and has valid options runs as far as its machine does. -/
theorem Machine.Finishes.exists_runText {request : TextRequest} {program : Program} {limits : Limits}
    {ending : Ending} {last : Machine} (encoded : request.source.encode = .ok program)
    (checked : request.options.check = .ok limits)
    (finished : (start program limits (request.inputStream.getD request.input)).Finishes ending last) :
    ∃ fuel, runText fuel request =
      some (.ofRun (if request.outputStream then .stream else .captured) ending last) := by
  obtain ⟨fuel, ran⟩ := finished
  refine ⟨fuel, ?_⟩
  simp only [runText, encoded, runProgram, checked, ran, Option.map_some]

/--
A text that only moves the cursor and counts in the cells is passed as a whole if it stays on the
tape. Otherwise the first command that leads off the tape fails. In both cases every cell holds the
difference of what was given at it, modulo 256.
-/
theorem walk_has_closed_form (request : TextRequest) (program : Program) (limits : Limits)
    (encoded : request.source.encode = .ok program) (checked : request.options.check = .ok limits)
    (unlimited : limits.stepLimit = none)
    (walks : ∀ command ∈ program.commands, command.walks = true) :
    (Walk.StaysOn limits.tapeSize program.commands program.commands.length →
      ∃ fuel outcome summary, runText fuel request = some outcome ∧ outcome.result = .ok summary ∧
        Walk.Leaves program.commands limits.tapeSize summary.cells summary.cursor ∧
        summary.steps = program.commands.length ∧ summary.openLoops = 0 ∧
        summary.output = #[] ∧ outcome.stream = #[]) ∧
    (¬ Walk.StaysOn limits.tapeSize program.commands program.commands.length →
      ∃ (count offset : Nat) (cause : Fault) (last : Machine),
        program.commandOffsets[count]? = some offset ∧
        Walk.StaysOn limits.tapeSize program.commands count ∧ cause.kind = .bounds ∧
        (Walk.place program.commands (count + 1) = -1 ∧
            cause.text = "cursor moved left of cell 0" ∨
          Walk.place program.commands (count + 1) = limits.tapeSize ∧
            cause.text =
              "cursor moved right of the last cell (" ++ toString (limits.tapeSize - 1) ++ ")") ∧
        (Machine.start program limits (request.inputStream.getD request.input)).Finishes
          (.failed (.fault offset cause)) last ∧
        Walk.Leaves (program.commands.take count) limits.tapeSize last.tape.cells last.tape.cursor ∧
        ∃ fuel outcome, runText fuel request = some outcome ∧
          outcome.result = .error (.failed program (.fault offset cause))) := by
  constructor
  · intro stays
    obtain ⟨last, finished, walked⟩ := Machine.exists_finishes_of_staysOn unlimited walks
      (request.inputStream.getD request.input) stays
    obtain ⟨fuel, answered⟩ := finished.exists_runText encoded checked
    have leaves := walked.leaves
    rw [List.take_length] at leaves
    refine ⟨fuel, _, _, answered, rfl, leaves, walked.steps, congrArg List.length walked.frames, ?_, ?_⟩
    · simp [RunOutcome.summary, walked.output]
    · simp [RunOutcome.ofRun, walked.output]
  · intro departs
    obtain ⟨count, command, found, stays, which⟩ :=
      Walk.exists_first_departure limits.hasCell (Nat.le_refl _) departs
    obtain ⟨offset, edge, stopped, ordinal, finished, walked, passed⟩ :=
      Machine.exists_finishes_of_departure unlimited walks
        (request.inputStream.getD request.input) found stays which
    obtain ⟨fuel, answered⟩ := finished.exists_runText encoded checked
    refine ⟨count, offset, .offTape edge, stopped.counted, ordinal, stays, rfl, ?_, finished,
      walked.leaves, fuel, _, answered, ?_⟩
    · rcases passed with ⟨place, rfl⟩ | ⟨place, rfl⟩
      · exact .inl ⟨place, rfl⟩
      · exact .inr ⟨place, rfl⟩
    · exact congrArg (fun text => Except.error (RunError.failed text _)) walked.text

/--
The first text wraps around and comes back. On one cell the second one fails at its first move,
after a comment.
-/
theorem walk_has_closed_form_one_cell :
    (∃ fuel outcome summary,
      runText fuel { source := .bytes #[45, 62, 43, 43, 60], options := { tapeSize := 2 } } =
        some outcome ∧
      outcome.result = .ok summary ∧ summary.steps = 5 ∧ summary.cursor = 0) ∧
    ∃ (offset : Nat) (cause : Fault) (last : Machine),
      (Machine.start #[45, 35, 62, 60] ⟨1, 1000, none, by decide, by decide⟩ []).Finishes
        (.failed (.fault offset cause)) last ∧
      offset = 2 ∧ cause.text = "cursor moved right of the last cell (0)" ∧
      ∃ cell, last.tape.cells[0]? = some cell ∧ (cell.toNat : Int) = 255 := by
  constructor
  · obtain ⟨fuel, outcome, summary, answered, returned, leaves, steps, -⟩ :=
      (walk_has_closed_form
        { source := .bytes #[45, 62, 43, 43, 60], options := { tapeSize := 2 } } _
        ⟨2, 1000, none, by decide, by decide⟩ rfl rfl rfl (by decide)).1 (by decide)
    exact ⟨fuel, outcome, summary, answered, returned, steps, Int.ofNat.inj leaves.place⟩
  · obtain ⟨count, offset, cause, last, ordinal, stays, -, which, finished, leaves, -⟩ :=
      (walk_has_closed_form { source := .bytes #[45, 35, 62, 60], options := { tapeSize := 1 } } _
        ⟨1, 1000, none, by decide, by decide⟩ rfl rfl rfl (by decide)).2 (by decide)
    have few : count < 3 := (List.getElem?_eq_some_iff.mp ordinal).1
    have onlyRight : ∀ count < 3, Walk.StaysOn 1 (Program.commands #[45, 35, 62, 60]) count →
        Walk.place (Program.commands #[45, 35, 62, 60]) (count + 1) ≠ -1 ∧
        (Walk.place (Program.commands #[45, 35, 62, 60]) (count + 1) = 1 → count = 1) := by decide
    obtain ⟨notLeft, second⟩ := onlyRight count few stays
    rcases which with ⟨place, -⟩ | ⟨place, text⟩
    · contradiction
    · obtain rfl := second place
      exact ⟨offset, cause, last, finished, (Option.some.inj ordinal).symm, text,
        leaves.values 0 (by decide)⟩

end Brainfuck
