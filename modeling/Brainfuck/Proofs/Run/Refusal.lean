/-
This file proves when a step fails, for which cause, and that nothing is half done then.
-/

import Brainfuck.Proofs.Brackets.Nesting

namespace Brainfuck.Machine

/-- A command that may still be counted is refused for this cause. -/
def obstacle? (machine : Machine) (offset : Nat) : Command → Option Fault
  | .right =>
      if machine.tape.cursor + 1 = machine.tape.size then
        some (.offTape (.right (machine.tape.size - 1)))
      else none
  | .left => if machine.tape.cursor = 0 then some (.offTape .left) else none
  | .loopOpen =>
      if machine.loops.depth = machine.loops.capacity then some (.tooDeep machine.loops.capacity)
      else if machine.tape.read = 0 ∧ (Pairing.ofProgram machine.program).closer? offset = none then
        some .unmatchedOpen
      else none
  | .loopClose => if machine.loops.depth = 0 then some .unmatchedClose else none
  | .increment | .decrement | .output | .input => none

/-- The step limit is tested before everything else. -/
def refusal? (machine : Machine) (offset : Nat) (command : Command) : Option Fault :=
  match machine.stepLimit with
  | none => machine.obstacle? offset command
  | some limit =>
      if limit ≤ machine.steps then some (.stepLimit limit) else machine.obstacle? offset command

variable {machine : Machine} {offset : Nat} {command : Command}

theorem refusal?_of_spent {limit : Int} (spent : machine.spentLimit? = some limit) :
    machine.refusal? offset command = some (.stepLimit limit) := by
  obtain ⟨bounded, reached⟩ := spentLimit?_eq_some.mp spent
  rw [refusal?, bounded]
  exact if_pos reached

theorem refusal?_of_free (free : machine.spentLimit? = none) :
    machine.refusal? offset command = machine.obstacle? offset command := by
  cases bounded : machine.stepLimit with
  | none => rw [refusal?, bounded]
  | some limit =>
      have below : ¬ limit ≤ machine.steps := by
        intro reached
        have spent := spentLimit?_eq_some.mpr ⟨bounded, reached⟩
        rw [free] at spent
        contradiction
      rw [refusal?, bounded]
      exact if_neg below

/-- A basic command meets an obstacle exactly at an end of the tape. -/
theorem obstacle?_basic (machine : Machine) (offset : Nat) (action : Basic) :
    machine.obstacle? offset action.command =
      match action.apply machine.store with
      | .ok _ => none
      | .error edge => some (.offTape edge) := by
  cases action with
  | right =>
      simp only [Basic.command, obstacle?, Basic.apply, store, ← Tape.advance?_eq_none]
      cases machine.tape.advance? <;> simp
  | left =>
      simp only [Basic.command, obstacle?, Basic.apply, store, ← Tape.retreat?_eq_none]
      cases machine.tape.retreat? <;> simp
  | increment | decrement | output | input => rfl

/-- The step limit is no obstacle of this kind. -/
theorem kind_of_obstacle? {cause : Fault} (refused : machine.obstacle? offset command = some cause) :
    cause.kind ≠ .steps := by
  cases command <;> grind [obstacle?, Fault.kind]

/-- A counted command fails for its obstacle, or it has none and moves the machine. -/
theorem Executing.obstacle? {result : StepResult} {next : Machine}
    (executing : machine.counted.Executing command (result, next)) (place : machine.ip = offset)
    (found : machine.program.commandAt? offset = some command) :
    (∃ cause, machine.obstacle? offset command = some cause ∧
      result = .failed (.fault offset cause) ∧ next = machine.counted) ∨
    machine.obstacle? offset command = none ∧ result = .moved := by
  have back : machine.counted.ip - 1 = offset := by
    rw [← place]
    exact Int.add_sub_cancel _ _
  have filled : machine.counted.loops.full = true ↔ machine.loops.depth = machine.loops.capacity :=
    LoopStack.full_iff
  cases executing with
  | @basic action store same applied =>
      refine .inr ⟨?_, rfl⟩
      rw [same, obstacle?_basic, show action.apply machine.store = .ok store from applied]
  | @offTape action edge same failed =>
      refine .inl ⟨.offTape edge, ?_, by rw [back], rfl⟩
      rw [same, obstacle?_basic, show action.apply machine.store = .error edge from failed]
  | tooDeep same full =>
      refine .inl ⟨.tooDeep machine.loops.capacity, ?_, by rw [back]; rfl, rfl⟩
      rw [same, Machine.obstacle?, if_pos (filled.mp full)]
  | entered same nonzero kept pushed =>
      have room := LoopStack.full_eq_false_of_pushed kept pushed
      have zero : ¬ machine.tape.read = 0 := nonzero
      refine .inr ⟨?_, rfl⟩
      rw [same, Machine.obstacle?, if_neg (by simp [← filled, room]), if_neg (by simp [zero])]
  | skipped same room zero scanned =>
      rw [same] at found
      rw [closing?_counted place found] at scanned
      obtain ⟨closer, partner, -⟩ := Option.map_eq_some_iff.mp scanned
      refine .inr ⟨?_, rfl⟩
      rw [same, Machine.obstacle?, if_neg (by simp [← filled, room]), if_neg (by simp [partner])]
  | unmatchedOpen same room zero missing =>
      rw [same] at found
      rw [closing?_counted place found, Option.map_eq_none_iff] at missing
      refine .inl ⟨.unmatchedOpen, ?_, by rw [back], rfl⟩
      rw [same, Machine.obstacle?, if_neg (by simp [← filled, room]), if_pos ⟨zero, missing⟩]
  | unmatchedClose same empty =>
      have depth : machine.loops.depth = 0 := List.length_eq_zero_iff.mpr empty
      refine .inl ⟨.unmatchedClose, ?_, by rw [back], rfl⟩
      rw [same, Machine.obstacle?, if_pos depth]
  | left same top | repeated same top =>
      have depth : machine.loops.depth ≠ 0 :=
        (congrArg List.length top).trans_ne (Nat.succ_ne_zero _)
      refine .inr ⟨?_, rfl⟩
      rw [same, Machine.obstacle?, if_neg depth]

/--
A step inside the text fails exactly if a command stands there and is refused. It blames that
command, which is passed and, unless the limit was spent, counted, and leaves all else as it was.
-/
theorem step_fails_iff_refused (machine : Machine) (offset : Nat) (place : machine.ip = offset)
    (inside : offset < machine.program.size) (failure : Failure) (next : Machine) :
    machine.step = (.failed failure, next) ↔
      ∃ command cause, machine.program.commandAt? offset = some command ∧
        machine.refusal? offset command = some cause ∧ failure = .fault offset cause ∧
        next = { machine with
          ip := offset + 1
          steps := if cause.kind = .steps then machine.steps else machine.steps + 1 } := by
  constructor
  · intro failed
    cases stepping_of_eq failed with
    | outOfText _ missing =>
        rw [place, Program.byteAt?_natCast, Array.getElem?_eq_none_iff] at missing
        omega
    | spent found spent =>
        rw [place] at found
        refine ⟨_, _, found, refusal?_of_spent spent, by rw [place], ?_⟩
        rw [passed, place]
        rfl
    | command found free executed =>
        rw [place] at found
        rcases (executing_of_eq executed).obstacle? place found with refused | moved
        · obtain ⟨cause, refused, same, rfl⟩ := refused
          refine ⟨_, cause, found, (refusal?_of_free free).trans refused,
            StepResult.failed.inj same, ?_⟩
          rw [if_neg (kind_of_obstacle? refused), counted, passed, place]
        · cases moved.2
  · rintro ⟨command, cause, found, refused, rfl, rfl⟩
    have here : machine.program.commandAt? machine.ip = some command := by
      rw [place]
      exact found
    cases limited : machine.spentLimit? with
    | some limit =>
        rw [refusal?_of_spent limited] at refused
        cases refused
        rw [step_spent here limited, passed, place]
        rfl
    | none =>
        rw [refusal?_of_free limited] at refused
        rw [step_command here limited, if_neg (kind_of_obstacle? refused)]
        rcases executed : machine.counted.execute command with ⟨result, next⟩
        rcases (executing_of_eq executed).obstacle? place found with failed | moved
        · obtain ⟨other, again, rfl, rfl⟩ := failed
          rw [refused] at again
          cases again
          rw [counted, passed, place]
        · rw [refused] at moved
          cases moved.1

/-- The stack is full when the inner loop comes, so that loop is refused although the cell is zero. -/
theorem step_fails_iff_refused_full_stack :
    ∃ machine : Machine,
      (start #[43, 91, 45, 91, 93] ⟨1, 1, none, by decide, by decide⟩ []).after 3 = some machine ∧
      machine.ip = 3 ∧ machine.tape.read = 0 ∧ machine.loops.depth = 1 ∧
      machine.step = (.failed (.fault 3 (.tooDeep 1)),
        { machine with ip := 4, steps := machine.steps + 1 }) := by
  have used : ∃ machine : Machine,
      (start #[43, 91, 45, 91, 93] ⟨1, 1, none, by decide, by decide⟩ []).after 3 = some machine ∧
      machine.ip = 3 ∧ machine.tape.read = 0 ∧ machine.loops.depth = 1 ∧
      machine.program = #[43, 91, 45, 91, 93] ∧
      machine.refusal? 3 .loopOpen = some (.tooDeep 1) := ⟨_, rfl, rfl, rfl, rfl, rfl, rfl⟩
  obtain ⟨machine, reached, place, zero, depth, text, refused⟩ := used
  refine ⟨machine, reached, place, zero, depth, ?_⟩
  refine (step_fails_iff_refused machine 3 place (by rw [text]; decide) _ _).mpr ?_
  exact ⟨.loopOpen, .tooDeep 1, by rw [text]; decide, refused, rfl, rfl⟩

end Brainfuck.Machine
