/-
This file checks the limits under which a program runs.
-/

import Brainfuck.LoopStack
import Brainfuck.Tape

namespace Brainfuck

/-- The requested limits may be any integers. -/
structure Options where
  tapeSize : Int := Tape.defaultSize
  loopDepth : Int := LoopStack.defaultCapacity
  stepLimit : Option Int := none

inductive OptionError where
  | stepLimit (value : Int)
  | tapeSize (value : Int)
  | loopDepth (value : Int)
  deriving DecidableEq

def OptionError.message : OptionError → String
  | .stepLimit value => "Step limit must not be negative, got " ++ toString value
  | .tapeSize value => "Tape size must be positive, got " ++ toString value
  | .loopDepth value => "Loop depth limit must be positive, got " ++ toString value

/-- Only checked limits reach a machine. -/
structure Limits where
  tapeSize : Nat
  loopDepth : Nat
  stepLimit : Option Nat
  hasCell : 0 < tapeSize
  hasFrame : 0 < loopDepth

namespace Options

def checkSteps : Option Int → Except OptionError (Option Nat)
  | none => .ok none
  | some value => if value < 0 then .error (.stepLimit value) else .ok (some value.toNat)

def checkTape (value : Int) : Except OptionError { size : Nat // 0 < size } :=
  if positive : 0 < value then .ok ⟨value.toNat, by omega⟩ else .error (.tapeSize value)

def checkDepth (value : Int) : Except OptionError { depth : Nat // 0 < depth } :=
  if positive : 0 < value then .ok ⟨value.toNat, by omega⟩ else .error (.loopDepth value)

/-- The step limit is checked first and the loop depth last. -/
def check (options : Options) : Except OptionError Limits := do
  let stepLimit ← checkSteps options.stepLimit
  let ⟨tapeSize, hasCell⟩ ← checkTape options.tapeSize
  let ⟨loopDepth, hasFrame⟩ ← checkDepth options.loopDepth
  return { tapeSize, loopDepth, stepLimit, hasCell, hasFrame }

end Options

/-- A tape of the requested size is blank at first. -/
def Tape.ofSize (size : Int) : Except OptionError Tape := do
  let ⟨size, positive⟩ ← Options.checkTape size
  return Tape.blank size positive

def LoopStack.ofCapacity (capacity : Int) : Except OptionError LoopStack := do
  let ⟨capacity, _⟩ ← Options.checkDepth capacity
  return LoopStack.empty capacity

end Brainfuck
