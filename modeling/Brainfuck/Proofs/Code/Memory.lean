/-
This file reads the bytes of a machine as the numbers of a memory.
-/

import Brainfuck.Code.Evaluates
import Brainfuck.Proofs.Run.Step

namespace Brainfuck

namespace Store

/-- The cells, the unread input and the output are read as numbers. -/
def memory (store : Store) : Memory where
  cells := store.tape.cells.toList.map UInt8.toNat
  cursor := store.tape.cursor
  inside := by simpa using store.tape.inside
  input := store.input.map UInt8.toNat
  output := store.output.toList.map UInt8.toNat

variable (store : Store)

@[simp] theorem cursor_memory : store.memory.cursor = store.tape.cursor := rfl

@[simp] theorem length_cells_memory : store.memory.cells.length = store.tape.size := by
  simp [memory, Tape.size]

@[simp] theorem current_memory : store.memory.current = store.tape.read.toNat := by
  simp [Memory.current, memory, Tape.read]

/-- Both ways to test a cell for zero agree. -/
theorem current_memory_eq_zero : store.memory.current = 0 ↔ store.tape.read = 0 := by
  rw [current_memory, ← UInt8.toNat_inj, UInt8.toNat_zero]

/-- A byte that is written is the number that is put. -/
theorem memory_write (value : UInt8) :
    { store with tape := store.tape.write value }.memory = store.memory.put value.toNat := by
  simp [memory, Memory.put, Tape.write, List.map_set]

/-- A move to the right leaves the memory where it leaves the tape. -/
theorem effect_right : Basic.right.effect store.memory = (Basic.right.apply store).map memory := by
  cases moved : store.tape.advance? with
  | none =>
      have edge := Tape.advance?_eq_none.mp moved
      have stuck : ¬ store.memory.cursor + 1 < store.memory.cells.length := by
        rw [cursor_memory, length_cells_memory, edge]
        exact Nat.lt_irrefl _
      rw [Basic.effect, dif_neg stuck, length_cells_memory, Basic.apply, moved]
      rfl
  | some tape =>
      obtain ⟨cells, cursor⟩ := Tape.advance?_eq_some.mp moved
      have room : store.memory.cursor + 1 < store.memory.cells.length := by
        rw [cursor_memory, length_cells_memory, ← cursor, Tape.size, ← cells]
        exact tape.inside
      rw [Basic.effect, dif_pos room, Basic.apply, moved]
      simp [Except.map, memory, cells, cursor]

/-- A move to the left leaves the memory where it leaves the tape. -/
theorem effect_left : Basic.left.effect store.memory = (Basic.left.apply store).map memory := by
  cases moved : store.tape.retreat? with
  | none =>
      have edge : store.memory.cursor = 0 := Tape.retreat?_eq_none.mp moved
      rw [Basic.effect, if_pos edge, Basic.apply, moved]
      rfl
  | some tape =>
      obtain ⟨cells, cursor⟩ := Tape.retreat?_eq_some.mp moved
      have away : store.memory.cursor ≠ 0 := by
        rw [cursor_memory, ← cursor]
        exact Nat.succ_ne_zero _
      rw [Basic.effect, if_neg away, Basic.apply, moved]
      simp [Except.map, memory, cells, ← cursor]

/-- Both read a zero after the end of the input. -/
theorem effect_input : Basic.input.effect store.memory = (Basic.input.apply store).map memory := by
  cases unread : store.input with
  | nil =>
      have ended : store.memory.input = [] := by rw [memory, unread, List.map_nil]
      have written := store.memory_write 0
      simp only [Basic.effect, ended, Basic.apply, unread]
      simpa [Except.map, unread] using written.symm
  | cons value rest =>
      have taken : store.memory.input = value.toNat :: rest.map UInt8.toNat := by
        rw [memory, unread, List.map_cons]
      have written := store.memory_write value
      simp only [Basic.effect, taken, Basic.apply, unread, ← written]
      rfl

end Store

/-- A basic command changes the numbers of a memory as it changes the bytes of a store. -/
theorem Basic.effect_memory (action : Basic) (store : Store) :
    action.effect store.memory = (action.apply store).map Store.memory := by
  cases action with
  | right => exact store.effect_right
  | left => exact store.effect_left
  | increment =>
      have sum : (store.tape.read + 1).toNat = (store.tape.read.toNat + 1) % 256 := by
        rw [UInt8.toNat_add]
        rfl
      rw [effect, Store.current_memory, ← sum, ← Store.memory_write]
      rfl
  | decrement =>
      -- Modulo 256 it is the same to take one away and to add 255.
      have difference : (store.tape.read - 1).toNat = (store.tape.read.toNat + 255) % 256 := by
        rw [UInt8.toNat_sub, Nat.add_comm]
        rfl
      rw [effect, Store.current_memory, ← difference, ← Store.memory_write]
      rfl
  | output =>
      simp [effect, apply, Except.map, Store.memory, Memory.current, Tape.read]
  | input => exact store.effect_input

namespace Machine

/-- This is what the machine holds, in numbers. -/
def memory (machine : Machine) : Memory := machine.store.memory

/-- A command that changes the memory of a machine changes its store in the same way. -/
theorem apply_of_effect {machine : Machine} {action : Basic} {memory next : Memory}
    (held : machine.memory = memory) (applied : action.effect memory = .ok next) :
    ∃ store, action.apply machine.store = .ok store ∧ store.memory = next := by
  rw [← held, Machine.memory, Basic.effect_memory] at applied
  cases stored : action.apply machine.store with
  | error edge =>
      rw [stored] at applied
      cases applied
  | ok store =>
      rw [stored] at applied
      cases applied
      exact ⟨store, rfl, rfl⟩

/-- A command that leaves the memory of a machine leaves its store at the same edge. -/
theorem apply_of_refused {machine : Machine} {action : Basic} {memory : Memory} {edge : Tape.Edge}
    (held : machine.memory = memory) (refused : action.effect memory = .error edge) :
    action.apply machine.store = .error edge := by
  rw [← held, Machine.memory, Basic.effect_memory] at refused
  cases stored : action.apply machine.store with
  | error other =>
      rw [stored] at refused
      cases refused
      rfl
  | ok store =>
      rw [stored] at refused
      cases refused

/-- A new machine holds only zeros and all of its input. -/
theorem memory_start (program : Program) (limits : Limits) (input : List UInt8) :
    (start program limits input).memory =
      Memory.initial limits.tapeSize limits.hasCell (input.map UInt8.toNat) := by
  simp [memory, Store.memory, store, start, Memory.initial, Tape.blank]

end Machine

end Brainfuck
