/-
This file finds the parts of a tree in the text that spells it.
-/

import Brainfuck.Proofs.Code.Spelling

namespace Brainfuck

namespace Program

/-- Only comments stand between the two offsets. -/
def Silent (program : Program) (start stop : Nat) : Prop :=
  start ≤ stop ∧ ∀ offset, start ≤ offset → offset < stop →
    ∃ byte, program.byteAt? offset = some byte ∧ Command.ofByte? byte = none

/-- The first comment can be passed. -/
theorem Silent.tail {program : Program} {start stop : Nat} (silent : program.Silent start stop)
    (inside : start < stop) : program.Silent (start + 1) stop := by
  refine ⟨inside, ?_⟩
  intro offset after before
  exact silent.2 offset (by omega) before

/-- The text goes on after a part of it. -/
theorem drop_add_length {program : Program} {start : Nat} {middle back : List UInt8}
    (text : program.toList.drop start = middle ++ back) :
    program.toList.drop (start + middle.length) = back := by
  rw [← List.drop_drop, text, List.drop_left]

/-- The search for the end of a loop passes over comments. -/
theorem Silent.closingFrom_eq {program : Program} {start stop : Nat}
    (silent : program.Silent start stop) (left depth : Nat) :
    program.closingFrom (left + (stop - start)) start depth =
      program.closingFrom left stop depth := by
  obtain ⟨count, rfl⟩ := Nat.exists_eq_add_of_le silent.1
  induction count generalizing start with
  | zero => simp
  | succ count ih =>
      obtain ⟨byte, found, plain⟩ := silent.2 start (Nat.le_refl start) (by omega)
      have comment : program.commandAt? start = none := by
        rw [commandAt?, found]
        exact plain
      have split : start + (count + 1) = start + 1 + count := by omega
      rw [split] at silent ⊢
      have rest := ih (silent.tail (by omega))
      have more : left + (start + 1 + count - start) = left + (start + 1 + count - (start + 1)) + 1 := by
        omega
      rw [more, closingFrom, comment, ← Int.natCast_succ]
      exact rest

theorem drop_succ_of_drop {program : Program} {start : Nat} {byte : UInt8} {back : List UInt8}
    (text : program.toList.drop start = byte :: back) :
    program.toList.drop (start + 1) = back := by
  rw [← List.drop_drop, text]
  rfl

theorem byteAt?_of_drop {program : Program} {start : Nat} {byte : UInt8} {back : List UInt8}
    (text : program.toList.drop start = byte :: back) : program.byteAt? start = some byte := by
  rw [byteAt?_natCast, ← Array.getElem?_toList, ← List.head?_drop, text]
  rfl

theorem commandAt?_of_drop {program : Program} {start : Nat} {byte : UInt8} {command : Command}
    {back : List UInt8} (text : program.toList.drop start = byte :: back)
    (decoded : Command.ofByte? byte = some command) : program.commandAt? start = some command := by
  rw [commandAt?, byteAt?_of_drop text]
  exact decoded

/-- A part of the text without commands is silent. -/
theorem silent_of_drop {program : Program} {start : Nat} {middle back : List UInt8}
    (text : program.toList.drop start = middle ++ back)
    (plain : ∀ byte ∈ middle, Command.ofByte? byte = none) :
    program.Silent start (start + middle.length) := by
  refine ⟨Nat.le_add_right _ _, ?_⟩
  intro offset after before
  obtain ⟨index, rfl⟩ := Nat.exists_eq_add_of_le after
  have inside : index < middle.length := by omega
  refine ⟨middle.get ⟨index, inside⟩, ?_, plain _ (List.get_mem middle _)⟩
  rw [byteAt?_natCast, ← Array.getElem?_toList, ← List.getElem?_drop, text,
    List.getElem?_append_left inside]
  exact List.getElem?_eq_getElem inside

end Program

/-- The text between the two offsets spells the tree. -/
inductive Layout (program : Program) : Code → Nat → Nat → Prop where
  | done {start stop : Nat} (lead : program.Silent start stop) : Layout program .done start stop
  | basic {action : Basic} {rest : Code} {start place stop : Nat}
      (lead : program.Silent start place)
      (found : program.commandAt? place = some action.command)
      (after : Layout program rest (place + 1) stop) :
      Layout program (.basic action rest) start stop
  | loop {body rest : Code} {start origin closer stop : Nat}
      (lead : program.Silent start origin)
      (opened : program.commandAt? origin = some .loopOpen)
      (inner : Layout program body (origin + 1) closer)
      (closed : program.commandAt? closer = some .loopClose)
      (after : Layout program rest (closer + 1) stop) :
      Layout program (.loop body rest) start stop

namespace Layout

/-- A part of the text is the layout of the tree whose commands it has. -/
theorem of_commands {program : Program} {code : Code} {start : Nat} {middle back : List UInt8}
    (text : program.toList.drop start = middle ++ back)
    (spelled : middle.filterMap Command.ofByte? = code.commands) :
    Layout program code start (start + middle.length) := by
  induction code generalizing start middle back with
  | done => exact .done (Program.silent_of_drop text (List.filterMap_eq_nil_iff.mp spelled))
  | basic action rest ih =>
      obtain ⟨lead, byte, tail, rfl, plain, decoded, left⟩ :=
        List.filterMap_eq_cons_iff.mp spelled
      rw [List.append_assoc] at text
      have here := Program.drop_add_length text
      have after := ih (Program.drop_succ_of_drop here) left
      have length : start + (lead ++ byte :: tail).length =
          start + lead.length + 1 + tail.length := by
        simp only [List.length_append, List.length_cons]
        omega
      rw [length]
      exact .basic (Program.silent_of_drop text plain) (Program.commandAt?_of_drop here decoded) after
  | loop body rest bodyIh restIh =>
      obtain ⟨lead, byte, tail, rfl, plain, decoded, left⟩ :=
        List.filterMap_eq_cons_iff.mp spelled
      obtain ⟨first, second, rfl, bodySpelled, restSpelled⟩ := List.filterMap_eq_append_iff.mp left
      obtain ⟨gap, last, tail, rfl, silent, closing, afterSpelled⟩ :=
        List.filterMap_eq_cons_iff.mp restSpelled
      rw [List.append_assoc] at text
      have here := Program.drop_add_length text
      have next : program.toList.drop (start + lead.length + 1) =
          (first ++ gap) ++ (last :: (tail ++ back)) := by
        simpa using Program.drop_succ_of_drop here
      have there := Program.drop_add_length next
      have inner := bodyIh next (by
        rw [List.filterMap_append, bodySpelled, List.filterMap_eq_nil_iff.mpr silent,
          List.append_nil])
      have after := restIh (Program.drop_succ_of_drop there) afterSpelled
      have length : start + (lead ++ byte :: (first ++ (gap ++ last :: tail))).length =
          start + lead.length + 1 + (first ++ gap).length + 1 + tail.length := by
        simp only [List.length_append, List.length_cons]
        omega
      rw [length]
      exact .loop (Program.silent_of_drop text plain) (Program.commandAt?_of_drop here decoded)
        inner (Program.commandAt?_of_drop there closing) after

/-- A text is the layout of the tree that it spells. -/
theorem of_spells {program : Program} {code : Code} (spelled : Code.Spells program code) :
    Layout program code 0 program.size := by
  have text : program.toList.drop 0 = program.toList ++ [] := by simp
  simpa using of_commands text (Code.spells_iff.mp spelled)

theorem start_le_stop {program : Program} {code : Code} {start stop : Nat}
    (layout : Layout program code start stop) : start ≤ stop := by
  induction layout with
  | done lead => exact lead.1
  | basic lead found after ih =>
      have order := lead.1
      omega
  | loop lead opened inner closed after bodyIh restIh =>
      have order := lead.1
      omega

/-- The search for the end of a loop passes over every whole tree. -/
theorem closingFrom_eq {program : Program} {code : Code} {start stop : Nat}
    (layout : Layout program code start stop) (left depth : Nat) :
    program.closingFrom (left + (stop - start)) start depth =
      program.closingFrom left stop depth := by
  induction layout generalizing left depth with
  | done lead => exact lead.closingFrom_eq left depth
  | @basic action rest start place stop lead found after ih =>
      have order := lead.1
      have later := after.start_le_stop
      have split : left + (stop - start) = left + (stop - (place + 1)) + 1 + (place - start) := by
        omega
      rw [split, lead.closingFrom_eq, Program.closingFrom, found, ← Int.natCast_succ, ← ih]
      cases action <;> rfl
  | @loop body rest start origin closer stop lead opened inner closed after bodyIh restIh =>
      have order := lead.1
      have within := inner.start_le_stop
      have later := after.start_le_stop
      have split : left + (stop - start) = left + (stop - (closer + 1)) + 1 +
          (closer - (origin + 1)) + 1 + (origin - start) := by
        omega
      rw [split, lead.closingFrom_eq, Program.closingFrom, opened, ← Int.natCast_succ]
      simp only
      rw [bodyIh, Program.closingFrom, closed, ← Int.natCast_succ]
      exact restIh left depth

/-- A loop ends just after its closing bracket. -/
theorem closing?_eq {program : Program} {body : Code} {origin closer : Nat}
    (inner : Layout program body (origin + 1) closer)
    (closed : program.commandAt? closer = some .loopClose) :
    program.closing? (origin + 1) = some ((closer : Int) + 1) := by
  have inside := Program.lt_of_commandAt?_natCast closed
  have within := inner.start_le_stop
  have split : ((program.size : Int) - (origin + 1)).toNat =
      program.size - (closer + 1) + 1 + (closer - (origin + 1)) := by
    omega
  rw [Program.closing?, split, ← Int.natCast_succ, inner.closingFrom_eq, Program.closingFrom, closed]
  rfl

end Layout

end Brainfuck
