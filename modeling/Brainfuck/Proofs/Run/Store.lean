/-
This file takes the basic commands of a machine out of its control flow.
-/

import Brainfuck.Code
import Brainfuck.Tape

namespace Brainfuck

/-- These parts of a machine are all that a basic command can see or change. -/
structure Store where
  tape : Tape
  input : List UInt8
  output : Array UInt8

/-- A move off the tape leaves no store. -/
def Basic.apply (store : Store) : Basic → Except Tape.Edge Store
  | .right =>
      match store.tape.advance? with
      | none => .error (.right (store.tape.size - 1))
      | some tape => .ok { store with tape }
  | .left =>
      match store.tape.retreat? with
      | none => .error .left
      | some tape => .ok { store with tape }
  | .increment => .ok { store with tape := store.tape.increment }
  | .decrement => .ok { store with tape := store.tape.decrement }
  | .output => .ok { store with output := store.output.push store.tape.read }
  | .input =>
      .ok { store with
        tape := store.tape.write (store.input.headD 0)
        input := store.input.tail }

/-- A basic command changes at most the value of a cell and the place of the cursor. -/
theorem Basic.size_apply {action : Basic} {store next : Store}
    (applied : action.apply store = .ok next) : next.tape.size = store.tape.size := by
  cases action with
  | right =>
      simp only [Basic.apply] at applied
      split at applied
      · contradiction
      · rename_i tape moved
        cases applied
        exact congrArg Array.size (Tape.advance?_eq_some.mp moved).1
  | left =>
      simp only [Basic.apply] at applied
      split at applied
      · contradiction
      · rename_i tape moved
        cases applied
        exact congrArg Array.size (Tape.retreat?_eq_some.mp moved).1
  | increment | decrement | output | input =>
      cases applied
      simp [Tape.increment, Tape.decrement]

/-- A basic command writes at most one byte. -/
theorem Basic.output_apply {action : Basic} {store next : Store}
    (applied : action.apply store = .ok next) :
    next.output = store.output ∨ next.output = store.output.push store.tape.read := by
  cases action with
  | right | left =>
      simp only [Basic.apply] at applied
      split at applied
      · contradiction
      · cases applied
        exact .inl rfl
  | output =>
      cases applied
      exact .inr rfl
  | increment | decrement | input =>
      cases applied
      exact .inl rfl

end Brainfuck
