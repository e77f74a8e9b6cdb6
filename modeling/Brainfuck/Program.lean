/-
This file reads a program by position and finds the end of a loop.
-/

import Brainfuck.Command
import Brainfuck.Index

namespace Brainfuck

/-- A program is kept as its bytes, so that every position is an offset into the text. -/
abbrev Program := Array UInt8

namespace Program

/-- A negative position counts back from the end of the text. -/
def byteAt? (program : Program) (position : Int) : Option UInt8 :=
  if 0 ≤ position then program[position.toNat]?
  else if -(program.size : Int) ≤ position then program[(program.size + position).toNat]?
  else none

def commandAt? (program : Program) (position : Int) : Option Command :=
  (program.byteAt? position).bind Command.ofByte?

/-- The first argument counts the bytes that are left before the end of the text. -/
def closingFrom (program : Program) :
    (left : Nat) → (position : Int) → (depth : Nat) → Option Int
  | 0, _, _ => none
  | left + 1, position, depth =>
      match program.commandAt? position with
      | some .loopOpen => program.closingFrom left (position + 1) (depth + 1)
      | some .loopClose =>
          if depth = 0 then some (position + 1)
          else program.closingFrom left (position + 1) (depth - 1)
      | _ => program.closingFrom left (position + 1) depth

/-- This is the position just after the bracket that closes a loop whose body begins here. -/
def closing? (program : Program) (position : Int) : Option Int :=
  program.closingFrom (program.size - position).toNat position 0

/-- No byte of the text has this position. -/
structure OutOfText where
  position : Int

/-- A position that is no index at all is told apart from one outside the text. -/
def OutOfText.message (place : OutOfText) : String :=
  if Index.fits place.position then "index out of range"
  else Index.Overflow.message ⟨place.position⟩

/-- The search can begin at every position from minus the length of the text on. -/
def loopEnd (program : Program) (position : Int) : Except OutOfText (Option Int) :=
  if position < -(program.size : Int) then .error ⟨position⟩
  else .ok (program.closing? position)

theorem byteAt?_natCast (program : Program) (position : Nat) :
    program.byteAt? position = program[position]? := by
  simp [byteAt?]

theorem commandAt?_natCast (program : Program) (offset : Nat) :
    program.commandAt? offset = program[offset]?.bind Command.ofByte? := by
  rw [commandAt?, byteAt?_natCast]

/-- A position with a byte lies before the end of the text. -/
theorem lt_size_of_byteAt? {program : Program} {position : Int} {byte : UInt8}
    (found : program.byteAt? position = some byte) : position < program.size := by
  unfold byteAt? at found
  split at found
  · obtain ⟨inside, -⟩ := Array.getElem?_eq_some_iff.mp found
    omega
  · omega

/-- A position without a byte lies behind the text, unless it is negative. -/
theorem size_le_of_byteAt? {program : Program} {position : Int} (nonneg : 0 ≤ position)
    (missing : program.byteAt? position = none) : program.size ≤ position := by
  rw [byteAt?, if_pos nonneg, Array.getElem?_eq_none_iff] at missing
  omega

theorem commandAt?_eq_some {program : Program} {position : Int} {command : Command} :
    program.commandAt? position = some command ↔
      ∃ byte, program.byteAt? position = some byte ∧ Command.ofByte? byte = some command := by
  unfold commandAt?
  exact Option.bind_eq_some_iff

theorem lt_size_of_commandAt? {program : Program} {position : Int} {command : Command}
    (found : program.commandAt? position = some command) : position < program.size := by
  obtain ⟨byte, present, -⟩ := commandAt?_eq_some.mp found
  exact lt_size_of_byteAt? present

theorem lt_of_commandAt?_natCast {program : Program} {offset : Nat} {command : Command}
    (found : program.commandAt? offset = some command) : offset < program.size := by
  have inside := lt_size_of_commandAt? found
  omega

/-- The search does not leave the bytes that it was given. -/
theorem closingFrom_bounds {program : Program} {left depth : Nat} {position resume : Int}
    (found : program.closingFrom left position depth = some resume) :
    position < resume ∧ resume ≤ position + left := by
  induction left generalizing position depth with
  | zero => simp [closingFrom] at found
  | succ left ih =>
      have further {depth : Nat} (found : program.closingFrom left (position + 1) depth = some resume) :
          position < resume ∧ resume ≤ position + (left + 1 : Nat) := by
        have bounds := ih found
        omega
      unfold closingFrom at found
      split at found
      · exact further found
      · split at found
        · cases found
          omega
        · exact further found
      · exact further found

/-- A loop ends after the position where the search began and not after the text. -/
theorem closing?_bounds {program : Program} {position resume : Int}
    (found : program.closing? position = some resume) :
    position < resume ∧ resume ≤ program.size := by
  have bounds := closingFrom_bounds found
  omega

end Program

end Brainfuck
