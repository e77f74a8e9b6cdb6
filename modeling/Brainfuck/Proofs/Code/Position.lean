/-
This file follows a machine through the layout of a tree.
-/

import Brainfuck.Proofs.Code.Layout
import Brainfuck.Proofs.Code.Memory
import Brainfuck.Proofs.Run.Reach

namespace Brainfuck

namespace Machine

/-- The machine has no step limit and stands at the offset with these open loops and this memory. -/
structure At (machine : Machine) (program : Program) (capacity offset : Nat) (frames : List Frame)
    (memory : Memory) : Prop where
  program : machine.program = program
  unlimited : machine.stepLimit = none
  capacity : machine.loops.capacity = capacity
  place : machine.ip = offset
  frames : machine.loops.frames = frames
  memory : machine.memory = memory

/-- Comments only move the instruction pointer. -/
theorem reaches_of_silent {machine : Machine} {offset stop : Nat} (place : machine.ip = offset)
    (silent : machine.program.Silent offset stop) : machine.Reaches { machine with ip := stop } := by
  obtain ⟨count, rfl⟩ := Nat.exists_eq_add_of_le silent.1
  induction count generalizing machine offset with
  | zero =>
      rw [Nat.add_zero, ← place]
      exact .refl machine
  | succ count ih =>
      obtain ⟨byte, found, plain⟩ := silent.2 offset (Nat.le_refl offset) (by omega)
      rw [← place] at found
      have split : offset + (count + 1) = offset + 1 + count := by omega
      have later : machine.passed.ip = (offset + 1 : Nat) := by
        rw [passed, place, Int.natCast_succ]
      rw [split] at silent ⊢
      exact Reaches.head (step_comment found plain) (ih later (silent.tail (by omega)))

/-- At least one move leads from one machine to the other. -/
def Advances (machine later : Machine) : Prop :=
  ∃ next, machine.step = (.moved, next) ∧ next.Reaches later

namespace Advances

variable {machine middle later : Machine}

theorem of_step (moved : machine.step = (.moved, later)) : machine.Advances later :=
  ⟨later, moved, .refl later⟩

theorem reaches (advanced : machine.Advances later) : machine.Reaches later := by
  obtain ⟨next, moved, rest⟩ := advanced
  exact rest.head moved

theorem of_reaches (reached : machine.Reaches middle) (advanced : middle.Advances later) :
    machine.Advances later := by
  obtain ⟨count, found⟩ := reached
  cases count with
  | zero =>
      cases found
      exact advanced
  | succ count =>
      obtain ⟨next, moved, rest⟩ := exists_of_after_succ found
      exact ⟨next, moved, Reaches.trans ⟨count, rest⟩ advanced.reaches⟩

/-- A run that ends has less fuel to use after a move. -/
theorem exists_runFor {fuel : Nat} {result : Ending × Machine} (advanced : machine.Advances later)
    (ended : machine.runFor fuel = some result) :
    ∃ less, less < fuel ∧ later.runFor less = some result := by
  obtain ⟨next, moved, rest⟩ := advanced
  cases fuel with
  | zero => simp [runFor] at ended
  | succ fuel =>
      rw [runFor, moved] at ended
      exact ⟨fuel, Nat.lt_succ_self fuel, runFor_of_reaches rest ended⟩

end Advances

namespace At

variable {program : Program} {capacity offset stop : Nat} {frames : List Frame} {memory : Memory}
  {machine : Machine}

theorem passed (placed : machine.At program capacity offset frames memory) :
    machine.passed.At program capacity (offset + 1) frames memory where
  program := placed.program
  unlimited := placed.unlimited
  capacity := placed.capacity
  place := by
    show machine.ip + 1 = _
    rw [placed.place, Int.natCast_succ]
  frames := placed.frames
  memory := placed.memory

theorem counted (placed : machine.At program capacity offset frames memory) :
    machine.counted.At program capacity (offset + 1) frames memory :=
  { placed.passed with }

/-- The machine finds a zero in its cell whenever the memory does. -/
theorem read_eq_zero (placed : machine.At program capacity offset frames memory) :
    machine.tape.read = 0 ↔ memory.current = 0 := by
  rw [← placed.memory]
  exact machine.store.current_memory_eq_zero.symm

/-- Comments are passed without any other change. -/
theorem reaches_silent (placed : machine.At program capacity offset frames memory)
    (silent : program.Silent offset stop) :
    ∃ later, machine.Reaches later ∧ later.At program capacity stop frames memory := by
  rw [← placed.program] at silent
  exact ⟨_, reaches_of_silent placed.place silent, { placed with place := rfl }⟩

/-- Every command is executed, since there is no limit. -/
theorem step_eq {command : Command} (placed : machine.At program capacity offset frames memory)
    (found : program.commandAt? offset = some command) :
    machine.step = machine.counted.execute command := by
  refine step_command ?_ (spentLimit?_of_unlimited placed.unlimited)
  rw [placed.program, placed.place]
  exact found

/-- A basic command changes the memory as it does without a machine. -/
theorem basic {action : Basic} {next : Memory}
    (placed : machine.At program capacity offset frames memory)
    (found : program.commandAt? offset = some action.command)
    (applied : action.effect memory = .ok next) :
    ∃ later, machine.step = (.moved, later) ∧
      later.At program capacity (offset + 1) frames next := by
  obtain ⟨store, stored, same⟩ := apply_of_effect placed.counted.memory applied
  refine ⟨machine.counted.absorb store, ?_, { placed.counted with memory := same }⟩
  rw [placed.step_eq found, execute_basic, stored]

/-- A move off the tape stops the machine. -/
theorem fault {action : Basic} {edge : Tape.Edge}
    (placed : machine.At program capacity offset frames memory)
    (found : program.commandAt? offset = some action.command)
    (failed : action.effect memory = .error edge) :
    machine.step = (.failed (.fault offset (.offTape edge)), machine.counted) := by
  rw [placed.step_eq found, execute_basic, apply_of_refused placed.counted.memory failed]
  simp only [fail, placed.counted.place, Int.natCast_succ, Int.add_sub_cancel]

/-- A stack with fewer frames than its capacity is not full. -/
theorem full_eq_false (placed : machine.At program capacity offset frames memory)
    (room : frames.length < capacity) : machine.loops.full = false := by
  cases full : machine.loops.full with
  | false => rfl
  | true =>
      have filled := LoopStack.full_iff.mp full
      rw [placed.frames, placed.capacity] at filled
      omega

/-- A loop is entered with a frame of its own. -/
theorem enter (placed : machine.At program capacity offset frames memory)
    (found : program.commandAt? offset = some .loopOpen) (room : frames.length < capacity)
    (nonzero : memory.current ≠ 0) :
    ∃ later, machine.step = (.moved, later) ∧
      later.At program capacity (offset + 1) (Frame.ofOrigin offset :: frames) memory := by
  have reading : machine.counted.tape.read ≠ 0 := mt placed.counted.read_eq_zero.mp nonzero
  obtain ⟨loops, opened, kept, pushed⟩ :=
    openLoop_enter (placed.counted.full_eq_false room) reading
  refine ⟨_, (placed.step_eq found).trans opened, ?_⟩
  exact {
    placed.counted with
    capacity := kept.trans placed.counted.capacity
    frames := by
      show loops.frames = _
      rw [pushed, placed.counted.frames, placed.counted.place, Int.natCast_succ, Int.add_sub_cancel]
      rfl }

/-- A skipped loop is passed as a whole. -/
theorem skip {closer : Nat} (placed : machine.At program capacity offset frames memory)
    (found : program.commandAt? offset = some .loopOpen) (room : frames.length < capacity)
    (zero : memory.current = 0) (resume : program.closing? (offset + 1) = some ((closer : Int) + 1)) :
    ∃ later, machine.step = (.moved, later) ∧
      later.At program capacity (closer + 1) frames memory := by
  have reading : machine.counted.tape.read = 0 := placed.counted.read_eq_zero.mpr zero
  have scanned : machine.counted.program.closing? machine.counted.ip = some ((closer : Int) + 1) := by
    rw [placed.counted.program, placed.counted.place, Int.natCast_succ]
    exact resume
  refine ⟨_, (placed.step_eq found).trans
    (openLoop_skip (placed.counted.full_eq_false room) reading scanned), ?_⟩
  exact { placed.counted with place := (Int.natCast_succ closer).symm }

/-- A loop that is left gives its frame back. -/
theorem leave {frame : Frame} (placed : machine.At program capacity offset (frame :: frames) memory)
    (found : program.commandAt? offset = some .loopClose) (zero : memory.current = 0) :
    ∃ later, machine.step = (.moved, later) ∧
      later.At program capacity (offset + 1) frames memory := by
  have reading : machine.counted.tape.read = 0 := placed.counted.read_eq_zero.mpr zero
  refine ⟨_, (placed.step_eq found).trans (closeLoop_leave placed.counted.frames reading), ?_⟩
  exact { placed.counted with frames := congrArg List.tail placed.counted.frames }

/-- A loop that is repeated goes back to its body and keeps its frame. -/
theorem again {origin : Nat}
    (placed : machine.At program capacity offset (Frame.ofOrigin origin :: frames) memory)
    (found : program.commandAt? offset = some .loopClose) (nonzero : memory.current ≠ 0) :
    ∃ later, machine.step = (.moved, later) ∧
      later.At program capacity (origin + 1) (Frame.ofOrigin origin :: frames) memory := by
  have reading : machine.counted.tape.read ≠ 0 := mt placed.counted.read_eq_zero.mp nonzero
  refine ⟨_, (placed.step_eq found).trans (closeLoop_repeat placed.counted.frames reading), ?_⟩
  exact { placed.counted with place := (Int.natCast_succ origin).symm }

end At

end Machine

end Brainfuck
