/-
This file gives the effect of commands that only move the cursor and count in the cells.
-/

import Brainfuck.Brackets
import Brainfuck.Proofs.Code.Layout
import Brainfuck.Proofs.Run.Reach
import Brainfuck.Proofs.Run.Step

namespace Brainfuck

namespace Command

/-- These commands count in the current cell. -/
def counts : Command → Bool
  | increment | decrement => true
  | right | left | output | input | loopOpen | loopClose => false

/-- These commands count in the current cell or move the cursor. -/
def walks : Command → Bool
  | right | left | increment | decrement => true
  | output | input | loopOpen | loopClose => false

/-- The cursor moves so many cells to the right. -/
def shift : Command → Int
  | right => 1
  | left => -1
  | increment | decrement | output | input | loopOpen | loopClose => 0

/-- The current cell grows by this number. -/
def gain : Command → Int
  | increment => 1
  | decrement => -1
  | right | left | output | input | loopOpen | loopClose => 0

theorem walks_of_counts {command : Command} (counts : command.counts = true) :
    command.walks = true := by
  cases command <;> first | rfl | contradiction

theorem shift_of_counts {command : Command} (counts : command.counts = true) :
    command.shift = 0 := by
  cases command <;> first | rfl | contradiction

end Command

namespace Walk

/-- The cursor is so many cells to the right after the commands. -/
def displacement : List Command → Int
  | [] => 0
  | command :: rest => command.shift + displacement rest

/-- The cell at this distance from where the commands begin grows by this number. -/
def change : List Command → Int → Int
  | [], _ => 0
  | command :: rest, distance =>
      (if distance = 0 then command.gain else 0) + change rest (distance - command.shift)

@[simp] theorem displacement_nil : displacement [] = 0 := rfl

@[simp] theorem displacement_cons (command : Command) (rest : List Command) :
    displacement (command :: rest) = command.shift + displacement rest := rfl

theorem displacement_of_counts {commands : List Command}
    (counts : ∀ command ∈ commands, command.counts = true) : displacement commands = 0 := by
  induction commands with
  | nil => rfl
  | cons command rest ih =>
      obtain ⟨first, others⟩ := List.forall_mem_cons.mp counts
      rw [displacement_cons, Command.shift_of_counts first, ih others, Int.add_zero]

/-- Commands that do not move the cursor change only the cell where they begin. -/
theorem change_of_counts {commands : List Command}
    (counts : ∀ command ∈ commands, command.counts = true) (distance : Int) :
    change commands distance =
      if distance = 0 then (commands.count .increment : Int) - commands.count .decrement else 0 := by
  induction commands with
  | nil => simp [change]
  | cons command rest ih =>
      obtain ⟨first, others⟩ := List.forall_mem_cons.mp counts
      rw [change, Command.shift_of_counts first, Int.sub_zero, ih others]
      cases command with
      | increment | decrement =>
          simp only [Command.gain, List.count_cons]
          split
          · simp
            omega
          · simp
      | right | left | output | input | loopOpen | loopClose => contradiction

/-- A cell that the walk does not come to stays as it is. -/
theorem change_of_unvisited {commands : List Command} {distance : Int}
    (unvisited : ∀ count ≤ commands.length, displacement (commands.take count) ≠ distance) :
    change commands distance = 0 := by
  induction commands generalizing distance with
  | nil => rfl
  | cons command rest ih =>
      have away : distance ≠ 0 := (unvisited 0 (Nat.zero_le _)).symm
      have later : ∀ count ≤ rest.length, displacement (rest.take count) ≠ distance - command.shift := by
        intro count within same
        refine unvisited (count + 1) (Nat.succ_le_succ within) ?_
        rw [List.take_succ_cons, displacement_cons, same]
        omega
      rw [change, if_neg away, ih later, Int.add_zero]

/-- There are no brackets among the commands of a walk. -/
theorem ofBytes_of_walks {bytes : List UInt8}
    (walks : ∀ command ∈ bytes.filterMap Command.ofByte?, command.walks = true) :
    Brackets.ofBytes bytes = [] := by
  rw [Brackets.ofBytes, List.filter_eq_nil_iff]
  intro command member bracket
  have plain := walks command member
  cases command <;> contradiction

end Walk

namespace Byte

theorem add_ofInt_zero (byte : UInt8) : byte + UInt8.ofInt 0 = byte := UInt8.add_zero byte

theorem ofInt_toNat (byte : UInt8) : UInt8.ofInt byte.toNat = byte := by
  have bound := byte.toNat_lt
  show UInt8.ofNat ((byte.toNat : Int) % 256).toNat = byte
  rw [show ((byte.toNat : Int) % 256).toNat = byte.toNat by omega, UInt8.ofNat_toNat]

/-- Only the remainder modulo 256 of a number is kept. -/
theorem ofInt_eq_of_emod_eq {first second : Int} (same : first % 256 = second % 256) :
    UInt8.ofInt first = UInt8.ofInt second := by
  show UInt8.ofNat (first % 256).toNat = UInt8.ofNat (second % 256).toNat
  rw [same]

end Byte

namespace Tape

/--
The cursor has moved by the shift, and every cell has grown by the change at its distance from the
old cursor.
-/
structure Adjusted (tape next : Tape) (shift : Int) (change : Int → Int) : Prop where
  cursor : (next.cursor : Int) = tape.cursor + shift
  cells : ∀ index : Nat, next.cells[index]? =
    tape.cells[index]?.map (· + UInt8.ofInt (change (index - tape.cursor)))

/-- Only the cursor has moved. -/
theorem adjusted_move {tape next : Tape} {shift : Int} (cells : next.cells = tape.cells)
    (cursor : (next.cursor : Int) = tape.cursor + shift) :
    tape.Adjusted next shift fun _ => 0 where
  cursor := cursor
  cells := by simp [cells, Byte.add_ofInt_zero]

theorem getElem?_cursor (tape : Tape) : tape.cells[tape.cursor]? = some tape.read :=
  Array.getElem?_eq_getElem tape.inside

theorem getElem?_write (tape : Tape) (value : UInt8) (index : Nat) :
    (tape.write value).cells[index]? = if tape.cursor = index then some value else tape.cells[index]? :=
  Array.getElem?_set tape.inside

namespace Adjusted

variable {tape next last : Tape} {shift more : Int} {change further : Int → Int}

theorem refl (tape : Tape) : tape.Adjusted tape 0 fun _ => 0 :=
  adjusted_move rfl (Int.add_zero _).symm

theorem trans (first : tape.Adjusted next shift change)
    (second : next.Adjusted last more further) :
    tape.Adjusted last (shift + more) fun distance =>
      change distance + further (distance - shift) where
  cursor := by
    rw [second.cursor, first.cursor]
    omega
  cells := by
    intro index
    have distance : (index : Int) - next.cursor = index - tape.cursor - shift := by
      rw [first.cursor]
      omega
    rw [second.cells, first.cells, Option.map_map, distance]
    congr 1
    funext cell
    simp only [Function.comp, UInt8.ofInt_add, UInt8.add_assoc]

theorem size_eq (adjusted : tape.Adjusted next shift change) : next.size = tape.size := by
  have past (index : Nat) : next.size ≤ index ↔ tape.size ≤ index := by
    rw [size, size, ← Array.getElem?_eq_none_iff, ← Array.getElem?_eq_none_iff, adjusted.cells,
      Option.map_eq_none_iff]
  exact Nat.le_antisymm ((past _).mpr (Nat.le_refl _)) ((past _).mp (Nat.le_refl _))

/-- Changes that agree modulo 256 lead to the same tape. -/
theorem unique (left : tape.Adjusted next shift change) (right : tape.Adjusted last shift further)
    (same : ∀ distance, UInt8.ofInt (change distance) = UInt8.ofInt (further distance)) :
    next = last := by
  have cells : next.cells = last.cells := by
    apply Array.ext_getElem?
    intro index
    rw [left.cells, right.cells, same]
  have cursor : next.cursor = last.cursor := by
    have here := left.cursor
    have there := right.cursor
    omega
  cases next
  cases last
  simp_all

/-- A cursor that came back reads the old cell and its change. -/
theorem read_eq (adjusted : tape.Adjusted next 0 change) :
    next.read = tape.read + UInt8.ofInt (change 0) := by
  have same : next.cursor = tape.cursor := by
    have moved := adjusted.cursor
    omega
  have cell := adjusted.cells tape.cursor
  rw [← same, getElem?_cursor, same, getElem?_cursor, Int.sub_self] at cell
  exact Option.some.inj cell

end Adjusted

/-- Only the current cell has grown. -/
theorem adjusted_write (tape : Tape) (gain : Int) :
    tape.Adjusted (tape.write (tape.read + UInt8.ofInt gain)) 0
      fun distance => if distance = 0 then gain else 0 where
  cursor := by simp
  cells := by
    intro index
    rw [getElem?_write]
    by_cases here : tape.cursor = index
    · subst here
      simp [getElem?_cursor]
    · have apart : ¬ (index : Int) - tape.cursor = 0 := by omega
      simp [here, apart, Byte.add_ofInt_zero]

/-- Wherever the walk comes, there is a cell. -/
def Allows (tape : Tape) (commands : List Command) : Prop :=
  ∀ count ≤ commands.length, 0 ≤ tape.cursor + Walk.displacement (commands.take count) ∧
    tape.cursor + Walk.displacement (commands.take count) < tape.size

instance (tape : Tape) (commands : List Command) : Decidable (tape.Allows commands) :=
  inferInstanceAs (Decidable (∀ count ≤ commands.length,
    0 ≤ tape.cursor + Walk.displacement (commands.take count) ∧
      tape.cursor + Walk.displacement (commands.take count) < tape.size))

namespace Allows

variable {tape next : Tape} {command : Command} {rest commands : List Command} {change : Int → Int}

theorem head (allows : tape.Allows (command :: rest)) :
    0 ≤ tape.cursor + command.shift ∧ tape.cursor + command.shift < tape.size := by
  simpa using allows 1 (by simp)

theorem tail (allows : tape.Allows (command :: rest))
    (adjusted : tape.Adjusted next command.shift change) : next.Allows rest := by
  intro count within
  have bounds := allows (count + 1) (Nat.succ_le_succ within)
  rw [List.take_succ_cons, Walk.displacement_cons] at bounds
  rw [adjusted.cursor, adjusted.size_eq]
  omega

/-- A walk that was possible is possible again from the same cell. -/
theorem again (allows : tape.Allows commands) (adjusted : tape.Adjusted next 0 change) :
    next.Allows commands := by
  intro count within
  rw [adjusted.cursor, adjusted.size_eq, Int.add_zero]
  exact allows count within

theorem of_counts (tape : Tape) (counts : ∀ command ∈ commands, command.counts = true) :
    tape.Allows commands := by
  intro count within
  have inside := tape.inside
  rw [Walk.displacement_of_counts fun command member => counts command (List.mem_of_mem_take member),
    size]
  omega

end Allows

end Tape

namespace Machine

variable {machine : Machine}

/-- A command that stays on the tape changes nothing but the tape. -/
theorem exists_execute_of_walks (machine : Machine) {command : Command} (walks : command.walks = true)
    (inside : 0 ≤ machine.tape.cursor + command.shift ∧
      machine.tape.cursor + command.shift < machine.tape.size) :
    ∃ tape, machine.execute command = (.moved, { machine with tape }) ∧
      machine.tape.Adjusted tape command.shift
        fun distance => if distance = 0 then command.gain else 0 := by
  have still (distance : Int) : (if distance = 0 then (0 : Int) else 0) = 0 := ite_self 0
  cases command with
  | increment => exact ⟨_, rfl, machine.tape.adjusted_write 1⟩
  | decrement =>
      have less : machine.tape.read - 1 = machine.tape.read + UInt8.ofInt (-1) := by
        rw [UInt8.sub_eq_add_neg, UInt8.ofInt_neg, UInt8.ofInt_one]
      refine ⟨machine.tape.decrement, rfl, ?_⟩
      rw [Tape.decrement, less]
      exact machine.tape.adjusted_write (-1)
  | right =>
      cases moved : machine.tape.advance? with
      | none =>
          have last := Tape.advance?_eq_none.mp moved
          simp only [Command.shift] at inside
          omega
      | some tape =>
          obtain ⟨cells, cursor⟩ := Tape.advance?_eq_some.mp moved
          refine ⟨tape, by rw [execute, moved], ?_⟩
          simp only [Command.gain, still]
          exact Tape.adjusted_move cells (by rw [cursor]; rfl)
  | left =>
      cases moved : machine.tape.retreat? with
      | none =>
          have first := Tape.retreat?_eq_none.mp moved
          simp only [Command.shift] at inside
          omega
      | some tape =>
          obtain ⟨cells, cursor⟩ := Tape.retreat?_eq_some.mp moved
          refine ⟨tape, by rw [execute, moved], ?_⟩
          simp only [Command.gain, still]
          exact Tape.adjusted_move cells (by simp only [Command.shift]; omega)
  | output | input | loopOpen | loopClose => contradiction

/-- A part of the text with such commands only is passed, and each of them is counted. -/
theorem exists_reaches_of_walks {offset : Nat} {middle back : List UInt8}
    (unlimited : machine.stepLimit = none) (place : machine.ip = offset)
    (text : machine.program.toList.drop offset = middle ++ back)
    (walks : ∀ command ∈ middle.filterMap Command.ofByte?, command.walks = true)
    (allows : machine.tape.Allows (middle.filterMap Command.ofByte?)) :
    ∃ tape, machine.tape.Adjusted tape (Walk.displacement (middle.filterMap Command.ofByte?))
        (Walk.change (middle.filterMap Command.ofByte?)) ∧
      machine.Reaches { machine with
        tape
        ip := (offset + middle.length : Nat)
        steps := machine.steps + (middle.filterMap Command.ofByte?).length } := by
  induction middle generalizing machine offset with
  | nil =>
      refine ⟨machine.tape, .refl _, ?_⟩
      simp only [List.length_nil, Nat.add_zero, List.filterMap_nil, ← place]
      exact .refl machine
  | cons byte middle ih =>
      have found := Program.byteAt?_of_drop text
      have after := Program.drop_succ_of_drop text
      rw [← place] at found
      have later : machine.passed.ip = (offset + 1 : Nat) := by
        rw [passed, place, Int.natCast_succ]
      have length : offset + (byte :: middle).length = offset + 1 + middle.length := by
        rw [List.length_cons]
        omega
      rw [length]
      cases decoded : Command.ofByte? byte with
      | none =>
          rw [List.filterMap_cons_none decoded] at walks allows ⊢
          have kept : machine.passed.stepLimit = none := unlimited
          obtain ⟨tape, adjusted, reached⟩ := ih kept later after walks allows
          exact ⟨tape, adjusted, reached.head (step_comment found decoded)⟩
      | some command =>
          rw [List.filterMap_cons_some decoded] at walks allows ⊢
          obtain ⟨first, others⟩ := List.forall_mem_cons.mp walks
          have here := Program.commandAt?_eq_some.mpr ⟨byte, found, decoded⟩
          obtain ⟨middleTape, executed, moved⟩ :=
            machine.counted.exists_execute_of_walks first allows.head
          have stepped := (step_command here (spentLimit?_of_unlimited unlimited)).trans executed
          have kept : { machine.counted with tape := middleTape }.stepLimit = none := unlimited
          obtain ⟨tape, adjusted, reached⟩ := ih kept later after others (allows.tail moved)
          refine ⟨tape, ?_, ?_⟩
          · rw [Walk.displacement_cons]
            exact moved.trans adjusted
          · have count : machine.steps + (command :: middle.filterMap Command.ofByte?).length =
                machine.steps + 1 + (middle.filterMap Command.ofByte?).length := by
              rw [List.length_cons]
              omega
            rw [count]
            exact reached.head stepped

end Machine

end Brainfuck
