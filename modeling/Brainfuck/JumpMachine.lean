/-
This file defines a machine without a loop stack, which takes its jumps from the paired brackets.
-/

import Brainfuck.Brackets
import Brainfuck.Machine

namespace Brainfuck

structure JumpMachine where
  program : Program
  depthLimit : Nat
  stepLimit : Option Int
  tape : Tape
  ip : Nat
  steps : Nat
  written : Nat
  input : List UInt8
  output : Array UInt8

namespace JumpMachine

def start (program : Program) (limits : Limits) (input : List UInt8) : JumpMachine where
  program
  depthLimit := limits.loopDepth
  stepLimit := limits.stepLimit.map Int.ofNat
  tape := Tape.blank limits.tapeSize limits.hasCell
  ip := 0
  steps := 0
  written := 0
  input
  output := #[]

def pairing (machine : JumpMachine) : Pairing := Pairing.ofProgram machine.program

def fail (machine : JumpMachine) (fault : Fault) : StepResult × JumpMachine :=
  (.failed (.fault (machine.ip - 1) fault), machine)

/-- The nesting of the text alone decides whether the loop is too deep. -/
def openLoop (machine : JumpMachine) (origin : Nat) : StepResult × JumpMachine :=
  if machine.depthLimit ≤ Pairing.depthAt machine.program origin then
    machine.fail (.tooDeep machine.depthLimit)
  else if machine.tape.read ≠ 0 then (.moved, machine)
  else
    match machine.pairing.closer? origin with
    | none => machine.fail .unmatchedOpen
    | some closer => (.moved, { machine with ip := closer + 1 })

def closeLoop (machine : JumpMachine) (offset : Nat) : StepResult × JumpMachine :=
  match machine.pairing.opener? offset with
  | none => machine.fail .unmatchedClose
  | some opener =>
      if machine.tape.read = 0 then (.moved, machine)
      else (.moved, { machine with ip := opener + 1 })

/-- The offset is that of the command, and the instruction pointer is already past it. -/
def execute (machine : JumpMachine) (offset : Nat) : Command → StepResult × JumpMachine
  | .right =>
      match machine.tape.advance? with
      | none => machine.fail (.offTape (.right (machine.tape.size - 1)))
      | some tape => (.moved, { machine with tape })
  | .left =>
      match machine.tape.retreat? with
      | none => machine.fail (.offTape .left)
      | some tape => (.moved, { machine with tape })
  | .increment => (.moved, { machine with tape := machine.tape.increment })
  | .decrement => (.moved, { machine with tape := machine.tape.decrement })
  | .output =>
      (.moved, { machine with
        output := machine.output.push machine.tape.read
        written := machine.written + 1 })
  | .input =>
      (.moved, { machine with
        tape := machine.tape.write (machine.input.headD 0)
        input := machine.input.tail })
  | .loopOpen => machine.openLoop offset
  | .loopClose => machine.closeLoop offset

def step (machine : JumpMachine) : StepResult × JumpMachine :=
  match machine.program[machine.ip]? with
  | none => (.exhausted, machine)
  | some byte =>
      let next := { machine with ip := machine.ip + 1 }
      match Command.ofByte? byte with
      | none => (.moved, next)
      | some command =>
          match machine.stepLimit.filter (· ≤ (machine.steps : Int)) with
          | some limit => next.fail (.stepLimit limit)
          | none => { next with steps := machine.steps + 1 }.execute machine.ip command

end JumpMachine

end Brainfuck
