/-
This file drives machines by single actions.
-/

import Brainfuck.Machine.Run
import Brainfuck.Tape.Request

namespace Brainfuck

inductive Action where
  | step
  | steps (count : Nat)
  | trace (count : Nat)
  | run
  | restart (input : Option (List UInt8))
  | jump (target : Int)
  | limit (steps : Option Int)
  | tape (request : Tape.Request)
  | loops (request : LoopStack.Request)

/-- A row records the result of one step and the state after it. -/
structure TraceRow where
  result : StepResult
  ip : Int
  steps : Nat
  cursor : Nat
  cell : UInt8
  depth : Nat

inductive ActionReply where
  | nothing
  | flag (value : Bool)
  | count (value : Nat)
  | rows (rows : List TraceRow)
  | tape (reply : Tape.Reply)
  | loops (reply : LoopStack.Reply)

inductive ActionError where
  | failed (failure : Failure)
  | tape (refusal : Tape.Refusal)
  | loops (overflow : LoopStack.Overflow)

namespace Machine

/-- The machine moves at most the given number of times, and the moves are counted. -/
def stepUpTo : (count : Nat) → (taken : Nat) → Machine → Except Failure Nat × Machine
  | 0, taken, machine => (.ok taken, machine)
  | count + 1, taken, machine =>
      match machine.step with
      | (.moved, next) => stepUpTo count (taken + 1) next
      | (.exhausted, next) => (.ok taken, next)
      | (.failed failure, next) => (.error failure, next)

def traceRow (result : StepResult) (machine : Machine) : TraceRow where
  result
  ip := machine.ip
  steps := machine.steps
  cursor := machine.tape.cursor
  cell := machine.tape.read
  depth := machine.loops.depth

/-- A failure does not stop the trace, and the end of the program does. -/
def trace : (count : Nat) → (rows : Array TraceRow) → Machine → List TraceRow × Machine
  | 0, rows, machine => (rows.toList, machine)
  | count + 1, rows, machine =>
      match machine.step with
      | (.exhausted, next) => ((rows.push (traceRow .exhausted next)).toList, next)
      | (result, next) => trace count (rows.push (traceRow result next)) next

/-- Only a run can use up the fuel. -/
def perform (fuel : Nat) (machine : Machine) :
    Action → Option (Except ActionError ActionReply × Machine)
  | .step =>
      match machine.step with
      | (.moved, next) => some (.ok (.flag true), next)
      | (.exhausted, next) => some (.ok (.flag false), next)
      | (.failed failure, next) => some (.error (.failed failure), next)
  | .steps count =>
      match machine.stepUpTo count 0 with
      | (.ok taken, next) => some (.ok (.count taken), next)
      | (.error failure, next) => some (.error (.failed failure), next)
  | .trace count =>
      let (rows, next) := machine.trace count #[]
      some (.ok (.rows rows), next)
  | .run =>
      (machine.run fuel).map fun
        | (.completed, last) => (.ok .nothing, last)
        | (.failed failure, last) => (.error (.failed failure), last)
  | .restart input => some (.ok .nothing, machine.restart input)
  | .jump target => some (.ok .nothing, { machine with ip := target })
  | .limit steps => some (.ok .nothing, { machine with stepLimit := steps })
  | .tape request =>
      match Tape.perform request machine.tape with
      | (.ok reply, tape) => some (.ok (.tape reply), { machine with tape })
      | (.error refusal, tape) => some (.error (.tape refusal), { machine with tape })
  | .loops request =>
      match LoopStack.perform request machine.loops with
      | (.ok reply, loops) => some (.ok (.loops reply), { machine with loops })
      | (.error overflow, loops) => some (.error (.loops overflow), { machine with loops })

end Machine

/-- The machines of a session share nothing. -/
structure Session where
  machines : Array Machine

/-- The notes of a machine afterwards belong to its last action. -/
def Session.perform (fuel : Nat) (session : Session) (index : Fin session.machines.size)
    (action : Action) : Option (Except ActionError ActionReply × Machine × Session) :=
  let machine := { session.machines[index] with notes := #[] }
  (machine.perform fuel action).map fun (reply, next) =>
    (reply, next, ⟨session.machines.set index next⟩)

end Brainfuck
