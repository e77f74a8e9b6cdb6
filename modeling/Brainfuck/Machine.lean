/-
This file defines the machine and its single step.
-/

import Brainfuck.Fault
import Brainfuck.Limits
import Brainfuck.Note
import Brainfuck.Program

namespace Brainfuck

/-- The input list holds what is still unread, and a limit that is set later may be negative. -/
structure Machine where
  program : Program
  stepLimit : Option Int
  tape : Tape
  loops : LoopStack
  ip : Int
  steps : Nat
  written : Nat
  input : List UInt8
  output : Array UInt8
  notes : Array Note

/-- A step fails at a command, or at a position that the text does not have. -/
inductive Failure where
  | fault (offset : Int) (cause : Fault)
  | outOfText (position : Int)
  deriving DecidableEq

inductive StepResult where
  | moved
  | exhausted
  | failed (failure : Failure)
  deriving DecidableEq

namespace Machine

/-- A new machine stands at the first byte with a blank tape. -/
def start (program : Program) (limits : Limits) (input : List UInt8) : Machine where
  program
  stepLimit := limits.stepLimit.map Int.ofNat
  tape := Tape.blank limits.tapeSize limits.hasCell
  loops := LoopStack.empty limits.loopDepth
  ip := 0
  steps := 0
  written := 0
  input
  output := #[]
  notes := #[]

/-- The output stays, and the unread input stays unless a new one is given. -/
def restart (machine : Machine) (input : Option (List UInt8)) : Machine :=
  { machine with
    tape := machine.tape.reset
    loops := machine.loops.clear
    ip := 0
    steps := 0
    written := 0
    input := input.getD machine.input }

def note (machine : Machine) (entry : Note) : Machine :=
  { machine with notes := machine.notes.push entry }

/-- The failing command is the one that was read last. -/
def fail (machine : Machine) (fault : Fault) : StepResult × Machine :=
  (.failed (.fault (machine.ip - 1) fault), machine)

def emit (machine : Machine) : Machine :=
  { machine with
    output := machine.output.push machine.tape.read
    written := machine.written + 1 }

/-- An exhausted input gives zero. -/
def receive (machine : Machine) : Machine :=
  { machine with
    tape := machine.tape.write (machine.input.headD 0)
    input := machine.input.tail }

/-- A full stack refuses the loop even if the cell is zero. -/
def openLoop (machine : Machine) : StepResult × Machine :=
  if machine.tape.read = 0 ∧ machine.loops.full = false then
    match machine.program.closing? machine.ip with
    | none => machine.fail .unmatchedOpen
    | some resume =>
        (.moved, { machine.note (.skipped (machine.ip - 1) resume) with ip := resume })
  else
    match machine.loops.push? ⟨machine.ip, machine.ip - 1⟩ with
    | none => machine.fail (.tooDeep machine.loops.capacity)
    | some loops => (.moved, { machine with loops })

/-- A loop without a frame is refused even if the cell is zero. -/
def closeLoop (machine : Machine) : StepResult × Machine :=
  match machine.loops.peek? with
  | none => machine.fail .unmatchedClose
  | some frame =>
      if machine.tape.read = 0 then (.moved, { machine with loops := machine.loops.pop })
      else (.moved, { machine with ip := frame.start })

/-- The instruction pointer is already past the command. -/
def execute (machine : Machine) : Command → StepResult × Machine
  | .right =>
      match machine.tape.advance? with
      | none => machine.fail (.offTape (.right (machine.tape.size - 1)))
      | some tape => (.moved, { machine with tape })
  | .left =>
      match machine.tape.retreat? with
      | none => machine.fail (.offTape .left)
      | some tape => (.moved, { machine with tape })
  | .increment => (.moved, { machine with tape := machine.tape.increment })
  | .decrement => (.moved, { machine with tape := machine.tape.decrement })
  | .output => (.moved, machine.emit)
  | .input => (.moved, machine.receive)
  | .loopOpen => machine.openLoop
  | .loopClose => machine.closeLoop

/-- This is the limit when no further command may be counted. -/
def spentLimit? (machine : Machine) : Option Int :=
  machine.stepLimit.filter (· ≤ machine.steps)

/-- Comments are passed without being counted. -/
def dispatch (machine : Machine) (byte : UInt8) : StepResult × Machine :=
  match Command.ofByte? byte with
  | none => (.moved, machine)
  | some command =>
      match machine.spentLimit? with
      | some limit => machine.fail (.stepLimit limit)
      | none => { machine with steps := machine.steps + 1 }.execute command

/-- The next step will read a byte that is not there yet. -/
def awaitsInput (machine : Machine) : Bool :=
  machine.input.isEmpty && machine.spentLimit?.isNone &&
    machine.program.commandAt? machine.ip = some .input

def step (machine : Machine) : StepResult × Machine :=
  if machine.program.size ≤ machine.ip then (.exhausted, machine)
  else
    match machine.program.byteAt? machine.ip with
    | none => (.failed (.outOfText machine.ip), machine)
    | some byte => { machine with ip := machine.ip + 1 }.dispatch byte

end Machine

end Brainfuck
