/-
This file compares the places of two texts that differ only in their comments.
-/

import Brainfuck.Brackets
import Brainfuck.Proofs.Code.Layout

namespace Brainfuck

/-- These commands follow the bracket that closes a loop whose body begins here. -/
def Brackets.afterLoop? : List Command → (depth : Nat) → Option (List Command)
  | [], _ => none
  | .loopOpen :: rest, depth => afterLoop? rest (depth + 1)
  | .loopClose :: rest, 0 => some rest
  | .loopClose :: rest, depth + 1 => afterLoop? rest depth
  | _ :: rest, depth => afterLoop? rest depth

namespace Program

/-- The comments of the text are left out. -/
def commands (program : Program) : List Command := program.toList.filterMap Command.ofByte?

/-- These commands stand at the offset and after it. -/
def commandsFrom (program : Program) (offset : Nat) : List Command :=
  (program.toList.drop offset).filterMap Command.ofByte?

/-- Commands stand at these offsets before the given one. -/
def offsetsBefore (program : Program) (stop : Nat) : List Nat :=
  (List.range stop).filter fun offset : Nat => (program.commandAt? offset).isSome

/-- The commands of the text stand at these offsets. -/
def commandOffsets (program : Program) : List Nat := program.offsetsBefore program.size

theorem commandsFrom_eq (program : Program) (offset : Nat) :
    program.commandsFrom offset =
      (program.commandAt? offset).toList ++ program.commandsFrom (offset + 1) := by
  cases text : program.toList.drop offset with
  | nil =>
      have past : program.size ≤ offset := by simpa using text
      have missing : program.commandAt? offset = none := by
        rw [commandAt?_natCast, Array.getElem?_eq_none past]
        rfl
      have later : program.toList.drop (offset + 1) = [] := by simp; omega
      simp [commandsFrom, missing, text, later]
  | cons byte back =>
      have found := byteAt?_of_drop text
      rw [commandsFrom, commandsFrom, drop_succ_of_drop text, text, commandAt?, found,
        List.filterMap_cons, Option.bind_some]
      cases Command.ofByte? byte <;> rfl

theorem commandsFrom_of_command {program : Program} {offset : Nat} {command : Command}
    (found : program.commandAt? offset = some command) :
    program.commandsFrom offset = command :: program.commandsFrom (offset + 1) := by
  rw [commandsFrom_eq, found]
  rfl

theorem commandsFrom_of_comment {program : Program} {offset : Nat}
    (plain : program.commandAt? offset = none) :
    program.commandsFrom offset = program.commandsFrom (offset + 1) := by
  rw [commandsFrom_eq, plain]
  rfl

theorem commandsFrom_of_size_le {program : Program} {offset : Nat} (past : program.size ≤ offset) :
    program.commandsFrom offset = [] := by
  have text : program.toList.drop offset = [] := by simpa using past
  rw [commandsFrom, text]
  rfl

/-- Only comments stand before the next command. -/
theorem exists_silent_of_cons {program : Program} {offset : Nat} {command : Command}
    {rest : List Command} (following : program.commandsFrom offset = command :: rest) :
    ∃ place, program.Silent offset place ∧ program.commandAt? place = some command ∧
      program.commandsFrom place = command :: rest := by
  obtain ⟨lead, byte, tail, text, plain, decoded, left⟩ := List.filterMap_eq_cons_iff.mp following
  have here := drop_add_length text
  refine ⟨offset + lead.length, silent_of_drop text plain, commandAt?_of_drop here decoded, ?_⟩
  rw [commandsFrom, here, List.filterMap_cons, decoded, left]

/-- Only comments stand after the last command. -/
theorem exists_silent_of_nil {program : Program} {offset : Nat}
    (following : program.commandsFrom offset = []) :
    ∃ stop, program.Silent offset stop ∧ program.size ≤ stop := by
  have text : program.toList.drop offset = program.toList.drop offset ++ [] := by simp
  refine ⟨_, silent_of_drop text (List.filterMap_eq_nil_iff.mp following), ?_⟩
  rw [List.length_drop, Array.length_toList]
  omega

/-- The search for the end of a loop depends on the commands alone. -/
theorem closingFrom_eq_afterLoop? (program : Program) {left offset : Nat} (depth : Nat)
    (span : program.size ≤ offset + left) :
    ∃ stop? : Option Nat, program.closingFrom left offset depth = stop?.map Nat.cast ∧
      Brackets.afterLoop? (program.commandsFrom offset) depth = stop?.map program.commandsFrom := by
  induction left generalizing offset depth with
  | zero =>
      refine ⟨none, rfl, ?_⟩
      rw [commandsFrom_of_size_le (show program.size ≤ offset from span)]
      rfl
  | succ left ih =>
      have further (depth : Nat) := ih depth (show program.size ≤ offset + 1 + left by omega)
      rw [closingFrom, ← Int.natCast_succ]
      cases found : program.commandAt? offset with
      | none =>
          rw [commandsFrom_of_comment found]
          exact further depth
      | some command =>
          rw [commandsFrom_of_command found]
          cases command with
          | loopOpen => exact further (depth + 1)
          | loopClose =>
              cases depth with
              | zero => exact ⟨some (offset + 1), rfl, rfl⟩
              | succ depth => exact further depth
          | right | left | increment | decrement | output | input => exact further depth

/-- The same commands follow the two positions in the two texts. -/
def Aligned (program other : Program) (position otherPosition : Int) : Prop :=
  ∃ offset otherOffset : Nat, position = offset ∧ otherPosition = otherOffset ∧
    program.commandsFrom offset = other.commandsFrom otherOffset

/-- Both searches for the end of a loop fail, or they end at positions that are aligned again. -/
theorem Aligned.closing? {program other : Program} {position otherPosition : Int}
    (aligned : Aligned program other position otherPosition) :
    (program.closing? position = none ∧ other.closing? otherPosition = none) ∨
      ∃ resume otherResume, program.closing? position = some resume ∧
        other.closing? otherPosition = some otherResume ∧
        Aligned program other resume otherResume := by
  obtain ⟨offset, otherOffset, rfl, rfl, same⟩ := aligned
  obtain ⟨stop?, scanned, left⟩ := program.closingFrom_eq_afterLoop? 0
    (show program.size ≤ offset + ((program.size : Int) - offset).toNat by omega)
  obtain ⟨otherStop?, otherScanned, otherLeft⟩ := other.closingFrom_eq_afterLoop? 0
    (show other.size ≤ otherOffset + ((other.size : Int) - otherOffset).toNat by omega)
  rw [same, otherLeft] at left
  rw [Program.closing?, Program.closing?, scanned, otherScanned]
  cases stop? with
  | none =>
      cases otherStop? with
      | none => exact .inl ⟨rfl, rfl⟩
      | some otherStop => contradiction
  | some stop =>
      cases otherStop? with
      | none => contradiction
      | some otherStop =>
          exact .inr ⟨stop, otherStop, rfl, rfl, stop, otherStop, rfl, rfl,
            (Option.some.inj left).symm⟩

/-- Every command stands before the offset or follows it. -/
theorem length_offsetsBefore (program : Program) (offset : Nat) :
    (program.offsetsBefore offset).length + (program.commandsFrom offset).length =
      program.commands.length := by
  induction offset with
  | zero => simp [offsetsBefore, commands, commandsFrom]
  | succ offset ih =>
      rw [commandsFrom_eq, List.length_append] at ih
      rw [← ih, offsetsBefore, offsetsBefore, List.range_succ, List.filter_append,
        List.length_append]
      cases found : program.commandAt? offset with
      | none => simp [found]
      | some command =>
          simp [found]
          omega

/-- The ordinal of a command is the number of commands before it. -/
theorem commandOffsets_getElem? {program : Program} {offset : Nat} {command : Command}
    (found : program.commandAt? offset = some command) :
    program.commandOffsets[(program.offsetsBefore offset).length]? = some offset := by
  have less := lt_of_commandAt?_natCast found
  obtain ⟨rest, whole⟩ := Nat.exists_eq_add_of_le less
  have split : program.commandOffsets = program.offsetsBefore offset ++ offset ::
      ((List.range rest).map (offset.succ + ·)).filter fun place : Nat =>
        (program.commandAt? place).isSome := by
    rw [commandOffsets, whole, offsetsBefore, List.range_add, List.range_succ, List.filter_append,
      List.filter_append, List.append_assoc]
    simp [offsetsBefore, found]
  rw [split, List.getElem?_append_right (Nat.le_refl _), Nat.sub_self]
  rfl

/-- Aligned commands of texts with the same commands have the same ordinal. -/
theorem exists_ordinal {program other : Program} (same : program.commands = other.commands)
    {position otherPosition : Int} (aligned : Aligned program other position otherPosition)
    {command : Command} (found : program.commandAt? position = some command)
    (otherFound : other.commandAt? otherPosition = some command) :
    ∃ ordinal place otherPlace : Nat, position = place ∧ otherPosition = otherPlace ∧
      program.commandOffsets[ordinal]? = some place ∧
      other.commandOffsets[ordinal]? = some otherPlace := by
  obtain ⟨place, otherPlace, rfl, rfl, following⟩ := aligned
  have left := program.length_offsetsBefore place
  have right := other.length_offsetsBefore otherPlace
  have equal : (program.offsetsBefore place).length = (other.offsetsBefore otherPlace).length := by
    rw [following, same] at left
    omega
  refine ⟨_, place, otherPlace, rfl, rfl, commandOffsets_getElem? found, ?_⟩
  rw [equal]
  exact commandOffsets_getElem? otherFound

end Program

end Brainfuck
