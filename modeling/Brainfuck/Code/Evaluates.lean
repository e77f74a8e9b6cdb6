/-
This file gives a tree of commands its meaning without positions and without a stack.
-/

import Brainfuck.Code
import Brainfuck.Tape

namespace Brainfuck

/-- The cells, the input and the output hold numbers, and the cursor stands on one of the cells. -/
structure Memory where
  cells : List Nat
  cursor : Nat
  inside : cursor < cells.length
  input : List Nat
  output : List Nat

namespace Memory

/-- All cells are zero at first. -/
def initial (size : Nat) (positive : 0 < size) (input : List Nat) : Memory where
  cells := List.replicate size 0
  cursor := 0
  inside := by simpa using positive
  input
  output := []

def current (memory : Memory) : Nat :=
  have inside := memory.inside
  memory.cells[memory.cursor]

def put (memory : Memory) (value : Nat) : Memory :=
  { memory with
    cells := memory.cells.set memory.cursor value
    inside := by simpa using memory.inside }

end Memory

/-- Numbers are taken modulo 256, a zero is read after the input, and a move may leave the cells. -/
def Basic.effect (memory : Memory) : Basic → Except Tape.Edge Memory
  | .right =>
      if room : memory.cursor + 1 < memory.cells.length then
        .ok { memory with cursor := memory.cursor + 1, inside := room }
      else .error (.right (memory.cells.length - 1))
  | .left =>
      if memory.cursor = 0 then .error .left
      else .ok
        { memory with
          cursor := memory.cursor - 1
          inside := Nat.lt_of_le_of_lt (Nat.sub_le _ _) memory.inside }
  | .increment => .ok (memory.put ((memory.current + 1) % 256))
  | .decrement => .ok (memory.put ((memory.current + 255) % 256))
  | .output => .ok { memory with output := memory.output ++ [memory.current] }
  | .input =>
      match memory.input with
      | [] => .ok (memory.put 0)
      | value :: rest => .ok { memory.put value with input := rest }

/-- A fault keeps the memory from before the failing move. -/
inductive Verdict where
  | finished (memory : Memory)
  | faulted (edge : Tape.Edge) (memory : Memory)

/-- A loop repeats its body while the current cell is not zero. -/
inductive Evaluates : Code → Memory → Verdict → Prop where
  | done (memory : Memory) : Evaluates .done memory (.finished memory)
  | basic {action : Basic} {rest : Code} {memory next : Memory} {verdict : Verdict} :
      action.effect memory = .ok next → Evaluates rest next verdict →
        Evaluates (.basic action rest) memory verdict
  | fault {action : Basic} {rest : Code} {memory : Memory} {edge : Tape.Edge} :
      action.effect memory = .error edge →
        Evaluates (.basic action rest) memory (.faulted edge memory)
  | skip {body rest : Code} {memory : Memory} {verdict : Verdict} :
      memory.current = 0 → Evaluates rest memory verdict →
        Evaluates (.loop body rest) memory verdict
  | again {body rest : Code} {memory next : Memory} {verdict : Verdict} :
      memory.current ≠ 0 → Evaluates body memory (.finished next) →
        Evaluates (.loop body rest) next verdict → Evaluates (.loop body rest) memory verdict
  | broken {body rest : Code} {memory last : Memory} {edge : Tape.Edge} :
      memory.current ≠ 0 → Evaluates body memory (.faulted edge last) →
        Evaluates (.loop body rest) memory (.faulted edge last)

/-- A tree has at most one verdict on a memory. -/
theorem Evaluates.unique {code : Code} {memory : Memory} {first second : Verdict}
    (left : Evaluates code memory first) (right : Evaluates code memory second) :
    first = second := by
  induction left generalizing second with
  | done memory =>
      cases right
      rfl
  | basic applied _ ih =>
      cases right with
      | basic again rest =>
          rw [applied] at again
          cases again
          exact ih rest
      | fault failed =>
          rw [applied] at failed
          contradiction
  | fault failed =>
      cases right with
      | basic applied _ =>
          rw [failed] at applied
          contradiction
      | fault again =>
          rw [failed] at again
          cases again
          rfl
  | skip zero _ ih =>
      cases right with
      | skip _ rest => exact ih rest
      | again other _ _ => exact absurd zero other
      | broken other _ => exact absurd zero other
  | again other _ _ bodyVerdict loopVerdict =>
      cases right with
      | skip zero _ => exact absurd zero other
      | again _ body loop =>
          cases bodyVerdict body
          exact loopVerdict loop
      | broken _ body => cases bodyVerdict body
  | broken other _ bodyVerdict =>
      cases right with
      | skip zero _ => exact absurd zero other
      | again _ body _ => cases bodyVerdict body
      | broken _ body =>
          cases bodyVerdict body
          rfl

end Brainfuck
