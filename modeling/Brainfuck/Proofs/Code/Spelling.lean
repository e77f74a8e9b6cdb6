/-
This file shows that a text with balanced brackets spells exactly one tree.
-/

import Brainfuck.Brackets
import Brainfuck.Code
import Brainfuck.Text.Latin1

namespace Brainfuck

theorem Basic.command_injective {first second : Basic} (same : first.command = second.command) :
    first = second := by
  cases first <;> cases second <;> cases same <;> rfl

namespace Command

/-- This character is the byte of the command. -/
def sign (command : Command) : Char := Latin1.charOf command.byte

theorem sign_injective {first second : Command} (same : first.sign = second.sign) :
    first = second :=
  byte_injective (Latin1.charOf_injective same)

/-- A byte is a command exactly if its character is one of the eight signs. -/
theorem charOf_mem_signs_iff (byte : UInt8) :
    Latin1.charOf byte ∈ ['>', '<', '+', '-', '.', ',', '[', ']'] ↔
      ∃ command, ofByte? byte = some command := by
  have signs : ['>', '<', '+', '-', '.', ',', '[', ']'] = all.map sign := by decide
  rw [signs, List.mem_map]
  constructor
  · rintro ⟨command, -, same⟩
    obtain rfl := Latin1.charOf_injective same
    exact ⟨command, ofByte?_byte command⟩
  · rintro ⟨command, found⟩
    obtain rfl := ofByte?_eq_some.mp found
    exact ⟨command, mem_all command, rfl⟩

/-- The signs of a text are those of its commands. -/
theorem filter_signs (bytes : List UInt8) :
    (bytes.map Latin1.charOf).filter (· ∈ ['>', '<', '+', '-', '.', ',', '[', ']']) =
      (bytes.filterMap ofByte?).map sign := by
  induction bytes with
  | nil => rfl
  | cons byte rest ih =>
      cases found : ofByte? byte with
      | none =>
          have plain : Latin1.charOf byte ∉ ['>', '<', '+', '-', '.', ',', '[', ']'] := by
            rw [charOf_mem_signs_iff, found]
            rintro ⟨command, other⟩
            contradiction
          rw [List.map_cons, List.filter_cons_of_neg (by simpa using plain), ih,
            List.filterMap_cons_none found]
      | some command =>
          have listed := (charOf_mem_signs_iff byte).mpr ⟨command, found⟩
          rw [List.map_cons, List.filter_cons_of_pos (by simpa using listed), ih,
            List.filterMap_cons_some found, List.map_cons, ofByte?_eq_some.mp found, sign]

end Command

namespace Code

theorem signs_eq (code : Code) : code.signs = code.commands.map Command.sign := by
  induction code with
  | done => rfl
  | basic action rest ih =>
      rw [signs, commands, List.map_cons, ih]
      cases action <;> rfl
  | loop body rest bodyIh restIh =>
      rw [signs, commands, List.map_cons, List.map_append, List.map_cons, bodyIh, restIh]
      rfl

/-- A text spells the tree that has its commands. -/
theorem spells_iff {program : Program} {code : Code} :
    Spells program code ↔ program.toList.filterMap Command.ofByte? = code.commands := by
  have text := Command.filter_signs program.toList
  rw [Spells, show (fun byte : UInt8 => Char.ofNat byte.toNat) = Latin1.charOf from rfl, text,
    signs_eq]
  exact List.map_inj_right fun _ _ => Command.sign_injective

/-- Basic commands can be put in front of every tree. -/
theorem exists_commands_append (plain : List Command) (code : Code)
    (basic : ∀ command ∈ plain, Brackets.isBracket command = false) :
    ∃ whole : Code, whole.commands = plain ++ code.commands := by
  induction plain with
  | nil => exact ⟨code, rfl⟩
  | cons command plain ih =>
      obtain ⟨whole, spelled⟩ := ih fun other member => basic other (List.mem_cons_of_mem _ member)
      have here := basic command List.mem_cons_self
      rcases command.basic_or_bracket with isBasic | isOpen | isClose
      · obtain ⟨action, rfl⟩ := isBasic
        refine ⟨.basic action whole, ?_⟩
        rw [commands, spelled]
        rfl
      · subst isOpen
        contradiction
      · subst isClose
        contradiction

/-- Commands with balanced brackets are the commands of a tree. -/
theorem exists_commands_of_balanced {brackets : List Command} (balanced : Brackets.Balanced brackets) :
    ∀ list : List Command, list.filter Brackets.isBracket = brackets →
      ∃ code : Code, code.commands = list := by
  induction balanced with
  | empty =>
      intro list filtered
      have basic : ∀ command ∈ list, Brackets.isBracket command = false := by
        simpa using List.filter_eq_nil_iff.mp filtered
      obtain ⟨code, spelled⟩ := exists_commands_append list .done basic
      exact ⟨code, by simpa [commands] using spelled⟩
  | @wrap inner rest _ _ bodyIh restIh =>
      intro list filtered
      obtain ⟨lead, tail, rfl, leadBasic, -, tailFiltered⟩ := List.filter_eq_cons_iff.mp filtered
      obtain ⟨front, back, rfl, frontFiltered, backFiltered⟩ :=
        List.filter_eq_append_iff.mp tailFiltered
      obtain ⟨gap, last, rfl, gapBasic, -, lastFiltered⟩ := List.filter_eq_cons_iff.mp backFiltered
      have gapFiltered : gap.filter Brackets.isBracket = [] := List.filter_eq_nil_iff.mpr gapBasic
      obtain ⟨body, bodySpelled⟩ := bodyIh (front ++ gap) (by
        rw [List.filter_append, frontFiltered, gapFiltered, List.append_nil])
      obtain ⟨after, afterSpelled⟩ := restIh last lastFiltered
      obtain ⟨whole, spelled⟩ := exists_commands_append lead (.loop body after) (by
        simpa using leadBasic)
      refine ⟨whole, ?_⟩
      rw [spelled, commands, bodySpelled, afterSpelled, List.append_assoc]

/-- A tree ends where its text ends or where the loop around it is closed. -/
def Stops (rest : List Command) : Prop :=
  ∀ command, rest.head? = some command → command = .loopClose

theorem stops_nil : Stops [] := by
  intro command found
  contradiction

theorem stops_loopClose (rest : List Command) : Stops (.loopClose :: rest) := by
  intro command found
  exact (Option.some.inj found).symm

/-- Only the empty tree has no command of its own before such a place. -/
theorem eq_done_of_stops {code : Code} {rest : List Command}
    (stops : Stops (code.commands ++ rest)) : code = .done := by
  cases code with
  | done => rfl
  | basic action after =>
      have closing := stops action.command rfl
      cases action <;> contradiction
  | loop body after =>
      have closing := stops .loopOpen rfl
      contradiction

/-- The commands determine the tree and the place where it ends. -/
theorem commands_append_injective {first second : Code} {left right : List Command}
    (leftStops : Stops left) (rightStops : Stops right)
    (same : first.commands ++ left = second.commands ++ right) : first = second ∧ left = right := by
  induction first generalizing second left right with
  | done =>
      have early : Stops (second.commands ++ right) := same ▸ leftStops
      obtain rfl := eq_done_of_stops early
      exact ⟨rfl, same⟩
  | basic action rest ih =>
      cases second with
      | done =>
          have early : Stops ((basic action rest).commands ++ left) := same.symm ▸ rightStops
          exact absurd (eq_done_of_stops early) (by simp)
      | basic other otherRest =>
          obtain ⟨head, tail⟩ := List.cons.inj same
          obtain ⟨rfl, rfl⟩ := ih leftStops rightStops tail
          rw [Basic.command_injective head]
          exact ⟨rfl, rfl⟩
      | loop body otherRest =>
          have head := (List.cons.inj same).1
          cases action <;> contradiction
  | loop body rest bodyIh restIh =>
      cases second with
      | done =>
          have early : Stops ((loop body rest).commands ++ left) := same.symm ▸ rightStops
          exact absurd (eq_done_of_stops early) (by simp)
      | basic other otherRest =>
          have head := (List.cons.inj same).1
          cases other <;> contradiction
      | loop otherBody otherRest =>
          simp only [commands, List.cons_append, List.append_assoc] at same
          have tail := (List.cons.inj same).2
          obtain ⟨rfl, after⟩ := bodyIh (stops_loopClose _) (stops_loopClose _) tail
          obtain ⟨rfl, rfl⟩ := restIh leftStops rightStops (List.cons.inj after).2
          exact ⟨rfl, rfl⟩

/-- A text spells at most one tree. -/
theorem Spells.unique {program : Program} {first second : Code} (left : Spells program first)
    (right : Spells program second) : first = second := by
  have same : first.commands ++ [] = second.commands ++ [] := by
    rw [List.append_nil, List.append_nil, ← spells_iff.mp left, spells_iff.mp right]
  exact (commands_append_injective stops_nil stops_nil same).1

/-- A text with balanced brackets spells a tree. -/
theorem exists_spells {program : Program}
    (balanced : Brackets.Balanced (Brackets.ofBytes program.toList)) :
    ∃ code, Spells program code := by
  obtain ⟨code, spelled⟩ := exists_commands_of_balanced balanced _ rfl
  exact ⟨code, spells_iff.mpr spelled.symm⟩

end Code

end Brainfuck
