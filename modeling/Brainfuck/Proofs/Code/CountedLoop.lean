/-
This file proves that a loop which counts its cell down runs as often as the cell says.
-/

import Brainfuck.Proofs.Brackets.Balance
import Brainfuck.Proofs.Code.Walk

namespace Brainfuck

namespace Walk

/-- The commands come back to the cell where they begin, and take one from it modulo 256. -/
structure CountsDown (commands : List Command) : Prop where
  walks : ∀ command ∈ commands, command.walks = true
  returns : displacement commands = 0
  takes : change commands 0 % 256 = -1 % 256

end Walk

/-- A cell that is not zero holds one less after one round. -/
theorem Byte.toNat_add_ofInt_neg_one {cell : UInt8} {rounds : Nat} (left : cell.toNat = rounds + 1) :
    (cell + UInt8.ofInt (-1)).toNat = rounds := by
  have bound := cell.toNat_lt
  have top : (UInt8.ofInt (-1)).toNat = 255 := rfl
  rw [UInt8.toNat_add, top]
  omega

theorem LoopStack.pop_eq {stack loops : LoopStack} {frame : Frame}
    (kept : loops.capacity = stack.capacity) (pushed : loops.frames = frame :: stack.frames) :
    loops.pop = stack := by
  cases stack
  simp [LoopStack.pop, kept, pushed]

namespace Machine

section Rounds

variable {machine : Machine} {origin rounds : Nat} {body back : List UInt8} {commands : List Command}
  {frame : Frame} {outer : List Frame}

theorem step_leave (unlimited : machine.stepLimit = none)
    (found : machine.program.commandAt? machine.ip = some .loopClose)
    (top : machine.loops.frames = frame :: outer) (zero : machine.tape.read = 0) :
    machine.step = (.moved, { machine.counted with loops := machine.loops.pop }) := by
  rw [step_command found (spentLimit?_of_unlimited unlimited), execute]
  exact closeLoop_leave top zero

theorem step_repeat (unlimited : machine.stepLimit = none)
    (found : machine.program.commandAt? machine.ip = some .loopClose)
    (top : machine.loops.frames = frame :: outer) (nonzero : machine.tape.read ≠ 0) :
    machine.step = (.moved, { machine.counted with ip := frame.start }) := by
  rw [step_command found (spentLimit?_of_unlimited unlimited), execute]
  exact closeLoop_repeat top nonzero

/-- The body leads to the closing bracket and leaves one less in the cell. -/
theorem exists_reaches_of_body (unlimited : machine.stepLimit = none) (place : machine.ip = origin)
    (text : machine.program.toList.drop origin = body ++ Command.loopClose.byte :: back)
    (spelled : body.filterMap Command.ofByte? = commands) (counts : Walk.CountsDown commands)
    (allows : machine.tape.Allows commands) (left : machine.tape.read.toNat = rounds + 1) :
    machine.program.commandAt? (origin + body.length : Nat) = some .loopClose ∧
      ∃ tape, machine.tape.Adjusted tape 0 (Walk.change commands) ∧ tape.read.toNat = rounds ∧
        machine.Reaches { machine with
          tape
          ip := (origin + body.length : Nat)
          steps := machine.steps + commands.length } := by
  subst spelled
  obtain ⟨tape, adjusted, reached⟩ :=
    exists_reaches_of_walks unlimited place text counts.walks allows
  rw [counts.returns] at adjusted
  refine ⟨Program.commandAt?_of_drop (Program.drop_add_length text) (Command.ofByte?_byte .loopClose),
    tape, adjusted, ?_, reached⟩
  rw [adjusted.read_eq, Byte.ofInt_eq_of_emod_eq counts.takes]
  exact Byte.toNat_add_ofInt_neg_one left

/-- The last round leaves the loop. -/
theorem exists_reaches_of_last_round (unlimited : machine.stepLimit = none)
    (place : machine.ip = origin) (top : machine.loops.frames = frame :: outer)
    (text : machine.program.toList.drop origin = body ++ Command.loopClose.byte :: back)
    (spelled : body.filterMap Command.ofByte? = commands) (counts : Walk.CountsDown commands)
    (allows : machine.tape.Allows commands) (left : machine.tape.read.toNat = 1) :
    ∃ tape, machine.tape.Adjusted tape 0 (Walk.change commands) ∧
      machine.Reaches { machine with
        tape
        loops := machine.loops.pop
        ip := (origin + body.length + 1 : Nat)
        steps := machine.steps + (commands.length + 1) } := by
  obtain ⟨closed, tape, adjusted, remaining, reached⟩ :=
    exists_reaches_of_body unlimited place text spelled counts allows left
  have zero : tape.read = 0 := UInt8.toNat_inj.mp remaining
  exact ⟨tape, adjusted, reached.trans (.of_step (step_leave unlimited closed top zero))⟩

/-- Every other round leads back to the beginning of the body. -/
theorem exists_reaches_of_round (unlimited : machine.stepLimit = none)
    (place : machine.ip = origin) (top : machine.loops.frames = frame :: outer)
    (start : frame.start = origin)
    (text : machine.program.toList.drop origin = body ++ Command.loopClose.byte :: back)
    (spelled : body.filterMap Command.ofByte? = commands) (counts : Walk.CountsDown commands)
    (allows : machine.tape.Allows commands) (left : machine.tape.read.toNat = rounds + 1 + 1) :
    ∃ tape, machine.tape.Adjusted tape 0 (Walk.change commands) ∧ tape.read.toNat = rounds + 1 ∧
      machine.Reaches { machine with tape, steps := machine.steps + (commands.length + 1) } := by
  obtain ⟨closed, tape, adjusted, remaining, reached⟩ :=
    exists_reaches_of_body unlimited place text spelled counts allows left
  have nonzero : tape.read ≠ 0 := by
    intro zero
    rw [zero] at remaining
    contradiction
  rw [place, ← start]
  exact ⟨tape, adjusted, remaining, reached.trans (.of_step (step_repeat unlimited closed top nonzero))⟩

/-- Inside the loop there are as many rounds as the cell says. -/
theorem exists_reaches_of_rounds (unlimited : machine.stepLimit = none)
    (place : machine.ip = origin) (top : machine.loops.frames = frame :: outer)
    (start : frame.start = origin)
    (text : machine.program.toList.drop origin = body ++ Command.loopClose.byte :: back)
    (spelled : body.filterMap Command.ofByte? = commands) (counts : Walk.CountsDown commands)
    (allows : machine.tape.Allows commands) (left : machine.tape.read.toNat = rounds + 1) :
    ∃ tape, machine.tape.Adjusted tape 0 (fun distance =>
        (rounds + 1 : Nat) * Walk.change commands distance) ∧
      machine.Reaches { machine with
        tape
        loops := machine.loops.pop
        ip := (origin + body.length + 1 : Nat)
        steps := machine.steps + (rounds + 1) * (commands.length + 1) } := by
  induction rounds generalizing machine with
  | zero =>
      obtain ⟨tape, adjusted, reached⟩ :=
        exists_reaches_of_last_round unlimited place top text spelled counts allows left
      refine ⟨tape, ?_, ?_⟩
      · simpa using adjusted
      · simpa using reached
  | succ rounds ih =>
      obtain ⟨middle, adjusted, remaining, reached⟩ :=
        exists_reaches_of_round unlimited place top start text spelled counts allows left
      have kept : { machine with
          tape := middle, steps := machine.steps + (commands.length + 1) }.stepLimit = none :=
        unlimited
      obtain ⟨tape, further, finished⟩ := ih kept place top text (allows.again adjusted) remaining
      refine ⟨tape, ?_, ?_⟩
      · have total := adjusted.trans further
        have sum : (fun distance => Walk.change commands distance +
            (rounds + 1 : Nat) * Walk.change commands (distance - 0)) =
            fun distance => (rounds + 1 + 1 : Nat) * Walk.change commands distance := by
          funext distance
          rw [Int.sub_zero, Int.natCast_succ (rounds + 1), Int.add_mul, Int.one_mul, Int.add_comm]
        rw [sum] at total
        exact total
      · have count : machine.steps + (rounds + 1 + 1) * (commands.length + 1) =
            machine.steps + (commands.length + 1) + (rounds + 1) * (commands.length + 1) := by
          rw [Nat.succ_mul]
          omega
        rw [count]
        exact reached.trans finished

end Rounds

/-- A loop over a zero cell is skipped as a whole. -/
theorem exists_reaches_of_skip {machine : Machine} {offset : Nat} {body back : List UInt8}
    (unlimited : machine.stepLimit = none) (room : machine.loops.full = false)
    (place : machine.ip = offset)
    (text : machine.program.toList.drop offset =
      Command.loopOpen.byte :: (body ++ Command.loopClose.byte :: back))
    (walks : ∀ command ∈ body.filterMap Command.ofByte?, command.walks = true)
    (zero : machine.tape.read = 0) :
    ∃ notes, machine.Reaches { machine with
      ip := (offset + body.length + 2 : Nat)
      steps := machine.steps + 1
      notes } := by
  have opened := Program.commandAt?_of_drop text (Command.ofByte?_byte .loopOpen)
  rw [← place] at opened
  have resume : machine.counted.program.closing? machine.counted.ip =
      some (offset + body.length + 2 : Nat) := by
    have later : machine.counted.ip = (offset + 1 : Nat) := by
      rw [counted, passed, place, Int.natCast_succ]
    rw [later]
    refine Program.closing?_eq_some_iff.mpr ⟨body, back, Program.drop_succ_of_drop text, ?_, by omega⟩
    rw [Walk.ofBytes_of_walks walks]
    exact .empty
  have stepped := (step_command opened (spentLimit?_of_unlimited unlimited)).trans
    (openLoop_skip room zero resume)
  exact ⟨_, .of_step stepped⟩

/-- The loop leads past its end and adds its change as often as the cell says. -/
theorem exists_reaches_of_loop {machine : Machine} {offset : Nat} {body back : List UInt8}
    {commands : List Command} (unlimited : machine.stepLimit = none)
    (room : machine.loops.full = false) (place : machine.ip = offset)
    (text : machine.program.toList.drop offset =
      Command.loopOpen.byte :: (body ++ Command.loopClose.byte :: back))
    (spelled : body.filterMap Command.ofByte? = commands) (counts : Walk.CountsDown commands)
    (allows : machine.tape.Allows commands) :
    ∃ tape notes, machine.tape.Adjusted tape 0 (fun distance =>
        machine.tape.read.toNat * Walk.change commands distance) ∧
      machine.Reaches { machine with
        tape
        ip := (offset + body.length + 2 : Nat)
        steps := machine.steps + 1 + machine.tape.read.toNat * (commands.length + 1)
        notes } := by
  by_cases zero : machine.tape.read = 0
  · obtain ⟨notes, reached⟩ :=
      exists_reaches_of_skip unlimited room place text (spelled ▸ counts.walks) zero
    refine ⟨machine.tape, notes, ?_, ?_⟩
    · simpa [zero] using Tape.Adjusted.refl machine.tape
    · simpa [zero] using reached
  · obtain ⟨rounds, left⟩ : ∃ rounds, machine.tape.read.toNat = rounds + 1 := by
      refine Nat.exists_eq_succ_of_ne_zero fun none => zero (UInt8.toNat_inj.mp none)
    have opened := Program.commandAt?_of_drop text (Command.ofByte?_byte .loopOpen)
    rw [← place] at opened
    obtain ⟨loops, entered, kept, pushed⟩ :=
      openLoop_enter (show machine.counted.loops.full = false from room) zero
    have stepped := (step_command opened (spentLimit?_of_unlimited unlimited)).trans entered
    have later : machine.counted.ip = (offset + 1 : Nat) := by
      rw [counted, passed, place, Int.natCast_succ]
    have free : { machine.counted with loops }.stepLimit = none := unlimited
    obtain ⟨tape, adjusted, finished⟩ := exists_reaches_of_rounds free later pushed later
      (Program.drop_succ_of_drop text) spelled counts allows left
    rw [left]
    refine ⟨tape, machine.notes, adjusted, ?_⟩
    have back : loops.pop = machine.loops := LoopStack.pop_eq kept pushed
    have stop : offset + 1 + body.length + 1 = offset + body.length + 2 := by omega
    rw [back, stop] at finished
    exact finished.head stepped

/--
A loop whose body only walks, comes back and takes one from its cell ends behind its closing bracket
after as many rounds as the cell says. The cell is zero then, and every other cell has grown by its
change in each round, modulo 256.
-/
theorem loop_runs_as_often_as_cell_says (machine : Machine) (offset : Nat) (body back : List UInt8)
    (commands : List Command) (unlimited : machine.stepLimit = none)
    (room : machine.loops.full = false) (place : machine.ip = offset)
    (text : machine.program.toList.drop offset =
      Command.loopOpen.byte :: (body ++ Command.loopClose.byte :: back))
    (spelled : body.filterMap Command.ofByte? = commands) (counts : Walk.CountsDown commands)
    (allows : machine.tape.Allows commands) :
    ∃ tape notes, machine.Reaches { machine with
        tape
        ip := (offset + body.length + 2 : Nat)
        steps := machine.steps + 1 + machine.tape.read.toNat * (commands.length + 1)
        notes } ∧
      tape.cursor = machine.tape.cursor ∧ tape.size = machine.tape.size ∧ tape.read = 0 ∧
      (∀ index cell, index ≠ machine.tape.cursor → machine.tape.cells[index]? = some cell →
        tape.cells[index]? = some (UInt8.ofInt (cell.toNat + machine.tape.read.toNat *
          Walk.change commands (index - machine.tape.cursor)))) ∧
      ∀ index : Nat, (∀ count ≤ commands.length,
          machine.tape.cursor + Walk.displacement (commands.take count) ≠ index) →
        tape.cells[index]? = machine.tape.cells[index]? := by
  obtain ⟨tape, notes, adjusted, reached⟩ :=
    exists_reaches_of_loop unlimited room place text spelled counts allows
  refine ⟨tape, notes, reached, ?_, adjusted.size_eq, ?_, ?_, ?_⟩
  · have cursor := adjusted.cursor
    omega
  · rw [adjusted.read_eq, UInt8.ofInt_mul, Byte.ofInt_toNat, Byte.ofInt_eq_of_emod_eq counts.takes,
      UInt8.ofInt_neg, UInt8.ofInt_one, UInt8.mul_neg, UInt8.mul_one, UInt8.add_right_neg]
  · intro index cell other found
    rw [adjusted.cells, found, Option.map_some, UInt8.ofInt_add, Byte.ofInt_toNat]
  · intro index unvisited
    have still : Walk.change commands (index - machine.tape.cursor) = 0 := by
      apply Walk.change_of_unvisited
      intro count within same
      exact unvisited count within (by omega)
    rw [adjusted.cells, still, Int.mul_zero]
    simp [Byte.add_ofInt_zero]

/--
The cell holds three, and the body takes one from it and one from the cell to its right, which
wraps around. A comment stands inside the body.
-/
theorem loop_runs_as_often_as_cell_says_three_rounds :
    ∃ (machine : Machine) (tape : Tape) (notes : Array Note),
      (start #[43, 43, 43, 91, 45, 35, 62, 45, 60, 93] ⟨2, 1, none, by decide, by decide⟩ []).after 3 =
        some machine ∧
      machine.tape.read = 3 ∧
      machine.Reaches { machine with tape, ip := 10, steps := 19, notes } ∧
      tape.cursor = 0 ∧ tape.read = 0 ∧ tape.cells[1]? = some 253 := by
  have used : ∃ machine : Machine,
      (start #[43, 43, 43, 91, 45, 35, 62, 45, 60, 93] ⟨2, 1, none, by decide, by decide⟩ []).after 3 =
        some machine ∧
      machine.tape.read = 3 ∧ machine.stepLimit = none ∧ machine.loops.full = false ∧
      machine.ip = (3 : Nat) ∧ machine.steps = 3 ∧ machine.tape.cursor = 0 ∧
      machine.program.toList.drop 3 =
        Command.loopOpen.byte :: ([45, 35, 62, 45, 60] ++ Command.loopClose.byte :: []) ∧
      machine.tape.Allows [.decrement, .right, .decrement, .left] ∧
      machine.tape.cells[1]? = some 0 := ⟨_, rfl, rfl, rfl, rfl, rfl, rfl, rfl, rfl, by decide, rfl⟩
  obtain ⟨machine, reached, cell, unlimited, room, place, steps, cursor, text, allows, right⟩ := used
  have counts : Walk.CountsDown [.decrement, .right, .decrement, .left] :=
    ⟨by decide, by decide, by decide⟩
  obtain ⟨tape, notes, finished, home, -, zero, others, -⟩ := loop_runs_as_often_as_cell_says machine 3
    _ _ [.decrement, .right, .decrement, .left] unlimited room place text (by decide) counts allows
  rw [cell, steps] at finished
  rw [cursor] at home
  refine ⟨machine, tape, notes, reached, cell, finished, home, zero, ?_⟩
  rw [others 1 0 (by rw [cursor]; decide) right, cell, cursor]
  decide

end Machine

end Brainfuck
