/-
This file says what a single step of a machine can do.
-/

import Brainfuck.Machine
import Brainfuck.Proofs.Run.Store

namespace Brainfuck

/-- This frame belongs to the loop whose opening bracket stands at the offset. -/
def Frame.ofOrigin (origin : Nat) : Frame := ⟨origin + 1, origin⟩

namespace Machine

/-- The instruction pointer is moved past the byte that was read. -/
def passed (machine : Machine) : Machine := { machine with ip := machine.ip + 1 }

/-- A command that was read is also counted. -/
def counted (machine : Machine) : Machine := { machine.passed with steps := machine.steps + 1 }

/-- At the end of the text nothing happens. -/
theorem step_of_size_le {machine : Machine} (past : machine.program.size ≤ machine.ip) :
    machine.step = (.exhausted, machine) := by
  rw [step, if_pos past]

/-- A position that the text does not have is refused. -/
theorem step_of_missing {machine : Machine} (inside : machine.ip < machine.program.size)
    (missing : machine.program.byteAt? machine.ip = none) :
    machine.step = (.failed (.outOfText machine.ip), machine) := by
  rw [step, if_neg (by omega), missing]

theorem step_of_byteAt? {machine : Machine} {byte : UInt8}
    (found : machine.program.byteAt? machine.ip = some byte) :
    machine.step = machine.passed.dispatch byte := by
  have inside := Program.lt_size_of_byteAt? found
  rw [step, if_neg (by omega), found]
  rfl

/-- A comment only moves the instruction pointer. -/
theorem step_comment {machine : Machine} {byte : UInt8}
    (found : machine.program.byteAt? machine.ip = some byte) (plain : Command.ofByte? byte = none) :
    machine.step = (.moved, machine.passed) := by
  rw [step_of_byteAt? found, dispatch, plain]

/-- A command is refused once the limit is spent. -/
theorem step_spent {machine : Machine} {command : Command} {limit : Int}
    (found : machine.program.commandAt? machine.ip = some command)
    (spent : machine.spentLimit? = some limit) :
    machine.step = (.failed (.fault machine.ip (.stepLimit limit)), machine.passed) := by
  obtain ⟨byte, present, decoded⟩ := Program.commandAt?_eq_some.mp found
  have later : machine.passed.spentLimit? = some limit := spent
  rw [step_of_byteAt? present, dispatch, decoded]
  simp only [later, fail]
  simp only [passed, Int.add_sub_cancel]

/-- A command is counted before it is executed. -/
theorem step_command {machine : Machine} {command : Command}
    (found : machine.program.commandAt? machine.ip = some command)
    (free : machine.spentLimit? = none) :
    machine.step = machine.counted.execute command := by
  obtain ⟨byte, present, decoded⟩ := Program.commandAt?_eq_some.mp found
  have later : machine.passed.spentLimit? = none := free
  rw [step_of_byteAt? present, dispatch, decoded]
  simp only [later]
  rfl

/-- These are all the ways in which a machine takes a step. -/
inductive Stepping (machine : Machine) : StepResult × Machine → Prop where
  | exhausted (past : machine.program.size ≤ machine.ip) : Stepping machine (.exhausted, machine)
  | outOfText (inside : machine.ip < machine.program.size)
      (missing : machine.program.byteAt? machine.ip = none) :
      Stepping machine (.failed (.outOfText machine.ip), machine)
  | comment {byte : UInt8} (found : machine.program.byteAt? machine.ip = some byte)
      (plain : Command.ofByte? byte = none) :
      Stepping machine (.moved, machine.passed)
  | spent {command : Command} {limit : Int}
      (found : machine.program.commandAt? machine.ip = some command)
      (spent : machine.spentLimit? = some limit) :
      Stepping machine (.failed (.fault machine.ip (.stepLimit limit)), machine.passed)
  | command {command : Command} {outcome : StepResult × Machine}
      (found : machine.program.commandAt? machine.ip = some command)
      (free : machine.spentLimit? = none)
      (executed : machine.counted.execute command = outcome) :
      Stepping machine outcome

theorem stepping_step (machine : Machine) : machine.Stepping machine.step := by
  by_cases past : machine.program.size ≤ machine.ip
  · rw [step_of_size_le past]
    exact .exhausted past
  · cases found : machine.program.byteAt? machine.ip with
    | none =>
        have inside : machine.ip < machine.program.size := by omega
        rw [step_of_missing inside found]
        exact .outOfText inside found
    | some byte =>
        cases decoded : Command.ofByte? byte with
        | none =>
            rw [step_comment found decoded]
            exact .comment found decoded
        | some command =>
            have present := Program.commandAt?_eq_some.mpr ⟨byte, found, decoded⟩
            cases limited : machine.spentLimit? with
            | some limit =>
                rw [step_spent present limited]
                exact .spent present limited
            | none => exact .command present limited (step_command present limited).symm

/-- A step that gives this outcome took one of the known ways. -/
theorem stepping_of_eq {machine : Machine} {outcome : StepResult × Machine}
    (stepped : machine.step = outcome) : machine.Stepping outcome :=
  stepped ▸ machine.stepping_step

/-- A machine that is started without a limit has none. -/
theorem stepLimit_start {limits : Limits} (unlimited : limits.stepLimit = none) (program : Program)
    (input : List UInt8) : (start program limits input).stepLimit = none := by
  rw [start, unlimited]
  rfl

/-- Without a limit no command is refused for it. -/
theorem spentLimit?_of_unlimited {machine : Machine} (unlimited : machine.stepLimit = none) :
    machine.spentLimit? = none := by
  rw [spentLimit?, unlimited]
  rfl

theorem spentLimit?_eq_some {machine : Machine} {limit : Int} :
    machine.spentLimit? = some limit ↔
      machine.stepLimit = some limit ∧ limit ≤ machine.steps := by
  simp [spentLimit?, Option.filter_eq_some_iff]

/-- This is the part of a machine that the basic commands use. -/
def store (machine : Machine) : Store := ⟨machine.tape, machine.input, machine.output⟩

/-- The machine takes over a store and counts the bytes that it added to the output. -/
def absorb (machine : Machine) (store : Store) : Machine :=
  { machine with
    tape := store.tape
    input := store.input
    output := store.output
    written := machine.written + (store.output.size - machine.output.size) }

/-- A basic command changes the store and nothing else. -/
theorem execute_basic (machine : Machine) (action : Basic) :
    machine.execute action.command =
      match action.apply machine.store with
      | .ok store => (.moved, machine.absorb store)
      | .error edge => machine.fail (.offTape edge) := by
  cases action with
  | right =>
      simp only [Basic.command, execute, Basic.apply, store]
      cases machine.tape.advance? <;> simp [absorb]
  | left =>
      simp only [Basic.command, execute, Basic.apply, store]
      cases machine.tape.retreat? <;> simp [absorb]
  | increment | decrement | output | input =>
      simp [Basic.command, execute, Basic.apply, store, absorb, emit, receive]

/-- A full stack refuses every loop. -/
theorem openLoop_full {machine : Machine} (full : machine.loops.full = true) :
    machine.openLoop = machine.fail (.tooDeep machine.loops.capacity) := by
  rw [openLoop, if_neg (by simp [full]), LoopStack.push?_eq_none.mpr full]

/-- A loop is entered if the cell is not zero. -/
theorem openLoop_enter {machine : Machine} (room : machine.loops.full = false)
    (nonzero : machine.tape.read ≠ 0) :
    ∃ loops : LoopStack, machine.openLoop = (.moved, { machine with loops }) ∧
      loops.capacity = machine.loops.capacity ∧
      loops.frames = ⟨machine.ip, machine.ip - 1⟩ :: machine.loops.frames := by
  rw [openLoop, if_neg (by simp [nonzero])]
  cases pushed : machine.loops.push? ⟨machine.ip, machine.ip - 1⟩ with
  | none =>
      rw [LoopStack.push?_eq_none.mp pushed] at room
      contradiction
  | some loops => exact ⟨loops, rfl, LoopStack.push?_eq_some.mp pushed⟩

/-- A loop is skipped if the cell is zero. -/
theorem openLoop_skip {machine : Machine} {resume : Int} (room : machine.loops.full = false)
    (zero : machine.tape.read = 0) (found : machine.program.closing? machine.ip = some resume) :
    machine.openLoop =
      (.moved, { machine.note (.skipped (machine.ip - 1) resume) with ip := resume }) := by
  rw [openLoop, if_pos ⟨zero, room⟩, found]

theorem openLoop_unmatched {machine : Machine} (room : machine.loops.full = false)
    (zero : machine.tape.read = 0) (missing : machine.program.closing? machine.ip = none) :
    machine.openLoop = machine.fail .unmatchedOpen := by
  rw [openLoop, if_pos ⟨zero, room⟩, missing]

theorem closeLoop_unmatched {machine : Machine} (empty : machine.loops.frames = []) :
    machine.closeLoop = machine.fail .unmatchedClose := by
  rw [closeLoop, LoopStack.peek?_eq_none.mpr empty]

/-- A loop is left if the cell is zero. -/
theorem closeLoop_leave {machine : Machine} {frame : Frame} {rest : List Frame}
    (top : machine.loops.frames = frame :: rest) (zero : machine.tape.read = 0) :
    machine.closeLoop = (.moved, { machine with loops := machine.loops.pop }) := by
  rw [closeLoop, LoopStack.peek?, top, List.head?_cons]
  exact if_pos zero

/-- A loop is repeated if the cell is not zero. -/
theorem closeLoop_repeat {machine : Machine} {frame : Frame} {rest : List Frame}
    (top : machine.loops.frames = frame :: rest) (nonzero : machine.tape.read ≠ 0) :
    machine.closeLoop = (.moved, { machine with ip := frame.start }) := by
  rw [closeLoop, LoopStack.peek?, top, List.head?_cons]
  exact if_neg nonzero

/-- These are all the ways in which a machine executes a command. -/
inductive Executing (machine : Machine) (command : Command) : StepResult × Machine → Prop where
  | basic {action : Basic} {store : Store} (same : command = action.command)
      (applied : action.apply machine.store = .ok store) :
      Executing machine command (.moved, machine.absorb store)
  | offTape {action : Basic} {edge : Tape.Edge} (same : command = action.command)
      (failed : action.apply machine.store = .error edge) :
      Executing machine command (.failed (.fault (machine.ip - 1) (.offTape edge)), machine)
  | tooDeep (same : command = .loopOpen) (full : machine.loops.full = true) :
      Executing machine command
        (.failed (.fault (machine.ip - 1) (.tooDeep machine.loops.capacity)), machine)
  | entered {loops : LoopStack} (same : command = .loopOpen) (nonzero : machine.tape.read ≠ 0)
      (kept : loops.capacity = machine.loops.capacity)
      (pushed : loops.frames = ⟨machine.ip, machine.ip - 1⟩ :: machine.loops.frames) :
      Executing machine command (.moved, { machine with loops })
  | skipped {resume : Int} (same : command = .loopOpen) (room : machine.loops.full = false)
      (zero : machine.tape.read = 0) (found : machine.program.closing? machine.ip = some resume) :
      Executing machine command
        (.moved, { machine.note (.skipped (machine.ip - 1) resume) with ip := resume })
  | unmatchedOpen (same : command = .loopOpen) (room : machine.loops.full = false)
      (zero : machine.tape.read = 0) (missing : machine.program.closing? machine.ip = none) :
      Executing machine command (.failed (.fault (machine.ip - 1) .unmatchedOpen), machine)
  | unmatchedClose (same : command = .loopClose) (empty : machine.loops.frames = []) :
      Executing machine command (.failed (.fault (machine.ip - 1) .unmatchedClose), machine)
  | left {frame : Frame} {rest : List Frame} (same : command = .loopClose)
      (top : machine.loops.frames = frame :: rest) (zero : machine.tape.read = 0) :
      Executing machine command (.moved, { machine with loops := machine.loops.pop })
  | repeated {frame : Frame} {rest : List Frame} (same : command = .loopClose)
      (top : machine.loops.frames = frame :: rest) (nonzero : machine.tape.read ≠ 0) :
      Executing machine command (.moved, { machine with ip := frame.start })

theorem Executing.eq {machine : Machine} {command : Command} {outcome : StepResult × Machine}
    (executing : machine.Executing command outcome) : machine.execute command = outcome := by
  cases executing with
  | basic same applied => rw [same, execute_basic, applied]
  | offTape same failed =>
      rw [same, execute_basic, failed]
      rfl
  | tooDeep same full => rw [same, execute, openLoop_full full, fail]
  | entered same nonzero kept pushed =>
      rw [same, execute, openLoop, if_neg (by simp [nonzero]),
        LoopStack.push?_eq_some.mpr ⟨kept, pushed⟩]
  | skipped same room zero found => rw [same, execute, openLoop_skip room zero found]
  | unmatchedOpen same room zero missing =>
      rw [same, execute, openLoop_unmatched room zero missing, fail]
  | unmatchedClose same empty => rw [same, execute, closeLoop_unmatched empty, fail]
  | left same top zero => rw [same, execute, closeLoop_leave top zero]
  | repeated same top nonzero => rw [same, execute, closeLoop_repeat top nonzero]

theorem executing_openLoop (machine : Machine) :
    machine.Executing .loopOpen machine.openLoop := by
  cases full : machine.loops.full with
  | true =>
      rw [openLoop_full full]
      exact .tooDeep rfl full
  | false =>
      by_cases zero : machine.tape.read = 0
      · cases found : machine.program.closing? machine.ip with
        | none =>
            rw [openLoop_unmatched full zero found]
            exact .unmatchedOpen rfl full zero found
        | some resume =>
            rw [openLoop_skip full zero found]
            exact .skipped rfl full zero found
      · obtain ⟨loops, opened, kept, pushed⟩ := openLoop_enter full zero
        rw [opened]
        exact .entered rfl zero kept pushed

theorem executing_closeLoop (machine : Machine) :
    machine.Executing .loopClose machine.closeLoop := by
  cases top : machine.loops.frames with
  | nil =>
      rw [closeLoop_unmatched top]
      exact .unmatchedClose rfl top
  | cons frame rest =>
      by_cases zero : machine.tape.read = 0
      · rw [closeLoop_leave top zero]
        exact .left rfl top zero
      · rw [closeLoop_repeat top zero]
        exact .repeated rfl top zero

/-- Every command is executed in one of the known ways. -/
theorem executing_execute (machine : Machine) (command : Command) :
    machine.Executing command (machine.execute command) := by
  rcases command.basic_or_bracket with basic | isOpen | isClose
  · obtain ⟨action, rfl⟩ := basic
    rw [execute_basic]
    cases applied : action.apply machine.store with
    | ok store => exact .basic rfl applied
    | error edge => exact .offTape rfl applied
  · subst isOpen
    exact machine.executing_openLoop
  · subst isClose
    exact machine.executing_closeLoop

theorem executing_of_eq {machine : Machine} {command : Command} {outcome : StepResult × Machine}
    (executed : machine.execute command = outcome) : machine.Executing command outcome :=
  executed ▸ machine.executing_execute command

/-- A command changes neither the text nor the limits nor the count. -/
theorem execute_frame {machine next : Machine} {command : Command} {result : StepResult}
    (executed : machine.execute command = (result, next)) :
    next.program = machine.program ∧ next.stepLimit = machine.stepLimit ∧
      next.steps = machine.steps ∧ next.loops.capacity = machine.loops.capacity := by
  cases executing_of_eq executed with
  | entered same nonzero kept pushed => exact ⟨rfl, rfl, rfl, kept⟩
  | basic | offTape | tooDeep | skipped | unmatchedOpen | unmatchedClose | left | repeated =>
      exact ⟨rfl, rfl, rfl, rfl⟩

/-- A step changes neither the text nor the limits. -/
theorem step_frame {machine next : Machine} {result : StepResult}
    (stepped : machine.step = (result, next)) :
    next.program = machine.program ∧ next.stepLimit = machine.stepLimit ∧
      next.loops.capacity = machine.loops.capacity := by
  cases stepping_of_eq stepped with
  | exhausted | outOfText | comment | spent => exact ⟨rfl, rfl, rfl⟩
  | command found free executed =>
      obtain ⟨text, limit, -, capacity⟩ := execute_frame executed
      exact ⟨text, limit, capacity⟩

/-- No command changes the number of cells. -/
theorem execute_size {machine next : Machine} {command : Command} {result : StepResult}
    (executed : machine.execute command = (result, next)) :
    next.tape.size = machine.tape.size := by
  cases executing_of_eq executed with
  | basic same applied => exact Basic.size_apply applied
  | offTape | tooDeep | entered | skipped | unmatchedOpen | unmatchedClose | left | repeated => rfl

theorem step_size (machine : Machine) : machine.step.2.tape.size = machine.tape.size := by
  rcases stepped : machine.step with ⟨result, next⟩
  cases stepping_of_eq stepped with
  | exhausted | outOfText | comment | spent => rfl
  | command found free executed =>
      have same : next.tape.size = machine.counted.tape.size := execute_size executed
      exact same

/-- The only note of a command names a skipped loop. -/
theorem execute_notes {machine next : Machine} {command : Command} {result : StepResult}
    (executed : machine.execute command = (result, next)) :
    next.notes = machine.notes ∨
      ∃ origin resume, next.notes = machine.notes.push (.skipped origin resume) := by
  cases executing_of_eq executed with
  | skipped => exact .inr ⟨_, _, rfl⟩
  | basic | offTape | tooDeep | entered | unmatchedOpen | unmatchedClose | left | repeated =>
      exact .inl rfl

/-- A command that fails leaves the machine as it is and blames the byte that was read last. -/
theorem execute_failed {machine next : Machine} {command : Command} {failure : Failure}
    (failed : machine.execute command = (.failed failure, next)) :
    next = machine ∧ ∃ cause, failure = .fault (machine.ip - 1) cause := by
  cases executing_of_eq failed with
  | offTape | tooDeep | unmatchedOpen | unmatchedClose => exact ⟨rfl, _, rfl⟩

/-- A step that fails at a command blames the one at which the machine stood. -/
theorem step_fault {machine next : Machine} {offset : Int} {cause : Fault}
    (failed : machine.step = (.failed (.fault offset cause), next)) :
    offset = machine.ip ∧ ∃ command, machine.program.commandAt? machine.ip = some command := by
  cases stepping_of_eq failed with
  | spent found spent => exact ⟨rfl, _, found⟩
  | command found free executed =>
      obtain ⟨-, cause, same⟩ := execute_failed executed
      cases same
      exact ⟨Int.add_sub_cancel _ _, _, found⟩

/-- From a position that is not negative there is a byte to read or nothing is left of the text. -/
theorem step_ne_outOfText {machine : Machine} (nonneg : 0 ≤ machine.ip) (position : Int) :
    machine.step.1 ≠ .failed (.outOfText position) := by
  rcases stepped : machine.step with ⟨result, next⟩
  rintro rfl
  cases stepping_of_eq stepped with
  | outOfText inside missing =>
      have past := Program.size_le_of_byteAt? nonneg missing
      omega
  | command found free executed =>
      obtain ⟨-, cause, fault⟩ := execute_failed executed
      contradiction

/-- Only the end of the text ends the program. -/
theorem step_exhausted {machine next : Machine} (ended : machine.step = (.exhausted, next)) :
    machine.program.size ≤ machine.ip ∧ next = machine := by
  cases stepping_of_eq ended with
  | exhausted past => exact ⟨past, rfl⟩
  | command found free executed => cases executing_of_eq executed

end Machine

end Brainfuck
