/-
This file defines programs as trees of commands and loops.
-/

import Brainfuck.Program

namespace Brainfuck

/-- These commands do not change the flow of control. -/
inductive Basic where
  | right
  | left
  | increment
  | decrement
  | output
  | input
  deriving DecidableEq

def Basic.command : Basic → Command
  | .right => .right
  | .left => .left
  | .increment => .increment
  | .decrement => .decrement
  | .output => .output
  | .input => .input

def Basic.sign : Basic → Char
  | .right => '>'
  | .left => '<'
  | .increment => '+'
  | .decrement => '-'
  | .output => '.'
  | .input => ','

/-- Every command is a basic one or a bracket. -/
theorem Command.basic_or_bracket (command : Command) :
    (∃ action : Basic, command = action.command) ∨ command = .loopOpen ∨ command = .loopClose := by
  cases command with
  | right => exact .inl ⟨.right, rfl⟩
  | left => exact .inl ⟨.left, rfl⟩
  | increment => exact .inl ⟨.increment, rfl⟩
  | decrement => exact .inl ⟨.decrement, rfl⟩
  | output => exact .inl ⟨.output, rfl⟩
  | input => exact .inl ⟨.input, rfl⟩
  | loopOpen => exact .inr (.inl rfl)
  | loopClose => exact .inr (.inr rfl)

inductive Code where
  | done
  | basic (basic : Basic) (rest : Code)
  | loop (body rest : Code)

namespace Code

/-- Every loop contributes both of its brackets. -/
def commands : Code → List Command
  | done => []
  | basic action rest => action.command :: commands rest
  | loop body rest => .loopOpen :: (commands body ++ .loopClose :: commands rest)

def depth : Code → Nat
  | done => 0
  | basic _ rest => depth rest
  | loop body rest => max (depth body + 1) (depth rest)

def signs : Code → List Char
  | done => []
  | basic action rest => action.sign :: signs rest
  | loop body rest => '[' :: (signs body ++ ']' :: signs rest)

/-- All other characters are comments, which may stand anywhere in the text of a program. -/
def Spells (program : Program) (code : Code) : Prop :=
  (program.toList.map fun byte => Char.ofNat byte.toNat).filter
    (· ∈ ['>', '<', '+', '-', '.', ',', '[', ']']) = code.signs

end Code

end Brainfuck
