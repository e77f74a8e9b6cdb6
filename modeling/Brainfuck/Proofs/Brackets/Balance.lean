/-
This file proves that the search for the end of a loop stops behind a balanced text.
-/

import Brainfuck.Brackets
import Brainfuck.Proofs.Code.Layout

namespace Brainfuck

namespace Brackets

/-- So many closing brackets have no partner here, and the parts between them are balanced. -/
inductive Descends : Nat → List Command → Prop where
  | level {brackets : List Command} (balanced : Balanced brackets) : Descends 0 brackets
  | fall {depth : Nat} {inner rest : List Command} (balanced : Balanced inner)
      (lower : Descends depth rest) : Descends (depth + 1) (inner ++ .loopClose :: rest)

/-- A balanced text that begins with a bracket begins with a loop. -/
theorem Balanced.exists_loop {rest : List Command} (balanced : Balanced (.loopOpen :: rest)) :
    ∃ inner after, rest = inner ++ .loopClose :: after ∧ Balanced inner ∧ Balanced after := by
  cases balanced with
  | wrap body after => exact ⟨_, _, rfl, body, after⟩

theorem not_balanced_close (rest : List Command) : ¬ Balanced (.loopClose :: rest) := nofun

namespace Descends

variable {depth : Nat} {inner rest : List Command}

/-- A balanced text can be put in front. -/
theorem append (balanced : Balanced inner) (lower : Descends depth rest) :
    Descends depth (inner ++ rest) := by
  cases lower with
  | level after => exact .level (balanced.append after)
  | fall between lower =>
      rw [← List.append_assoc]
      exact .fall (balanced.append between) lower

theorem nil_iff : Descends depth [] ↔ depth = 0 := by
  constructor
  · intro descends
    generalize same : ([] : List Command) = brackets at descends
    cases descends with
    | level balanced => rfl
    | fall balanced lower => simp at same
  · rintro rfl
    exact .level .empty

/-- An opening bracket adds one to the closing brackets that are needed after it. -/
theorem open_iff : Descends depth (.loopOpen :: rest) ↔ Descends (depth + 1) rest := by
  constructor
  · intro descends
    generalize same : Command.loopOpen :: rest = brackets at descends
    cases descends with
    | level balanced =>
        subst same
        obtain ⟨body, after, rfl, closed, level⟩ := balanced.exists_loop
        exact .fall closed (.level level)
    | @fall lower before below balanced descends =>
        cases before with
        | nil => simp at same
        | cons first before =>
            obtain ⟨rfl, rfl⟩ := List.cons.inj same
            obtain ⟨body, after, rfl, closed, level⟩ := balanced.exists_loop
            have deeper := fall closed (fall level descends)
            simpa using deeper
  · intro descends
    cases descends with
    | @fall _ body after closed lower =>
        have loop : Balanced (.loopOpen :: body ++ [.loopClose]) := .wrap closed .empty
        simpa using append loop lower

theorem not_close_zero : ¬ Descends 0 (.loopClose :: rest) := by
  intro descends
  cases descends with
  | level balanced => exact not_balanced_close rest balanced

/-- A closing bracket is one of those that are needed. -/
theorem close_succ_iff : Descends (depth + 1) (.loopClose :: rest) ↔ Descends depth rest := by
  constructor
  · intro descends
    generalize same : Command.loopClose :: rest = brackets at descends
    cases descends with
    | @fall _ before after balanced lower =>
        cases before with
        | nil =>
            cases same
            exact lower
        | cons first before =>
            obtain ⟨rfl, -⟩ := List.cons.inj same
            exact absurd balanced (not_balanced_close before)
  · intro lower
    exact .fall .empty lower

end Descends

theorem ofBytes_append (first second : List UInt8) :
    ofBytes (first ++ second) = ofBytes first ++ ofBytes second := by
  simp [ofBytes]

theorem ofBytes_cons_bracket {byte : UInt8} {command : Command} (bytes : List UInt8)
    (decoded : Command.ofByte? byte = some command) (bracket : isBracket command = true) :
    ofBytes (byte :: bytes) = command :: ofBytes bytes := by
  simp [ofBytes, decoded, bracket]

theorem ofBytes_cons_other {byte : UInt8} (bytes : List UInt8)
    (other : ∀ command, Command.ofByte? byte = some command → isBracket command = false) :
    ofBytes (byte :: bytes) = ofBytes bytes := by
  cases decoded : Command.ofByte? byte with
  | none => simp [ofBytes, decoded]
  | some command => simp [ofBytes, decoded, other command decoded]

end Brackets

namespace Program

open Brackets

/-- The text closes so many loops and one more, and the last bracket ends a part of this length. -/
def Closes (text : List UInt8) (depth length : Nat) : Prop :=
  ∃ inner back, text = inner ++ Command.loopClose.byte :: back ∧ Descends depth (ofBytes inner) ∧
    length = inner.length + 1

namespace Closes

variable {byte : UInt8} {text : List UInt8} {depth length : Nat}

/-- The last bracket is the first byte, or the other bytes close what is left. -/
theorem cons_iff :
    Closes (byte :: text) depth length ↔
      (byte = Command.loopClose.byte ∧ depth = 0 ∧ length = 1) ∨
      ∃ inner back, text = inner ++ Command.loopClose.byte :: back ∧
        Descends depth (ofBytes (byte :: inner)) ∧ length = inner.length + 1 + 1 := by
  constructor
  · rintro ⟨inner, back, split, descends, rfl⟩
    cases inner with
    | nil =>
        obtain ⟨rfl, rfl⟩ := List.cons.inj split
        exact .inl ⟨rfl, Descends.nil_iff.mp descends, rfl⟩
    | cons first inner =>
        obtain ⟨rfl, rfl⟩ := List.cons.inj split
        exact .inr ⟨inner, back, rfl, descends, rfl⟩
  · rintro (⟨rfl, rfl, rfl⟩ | ⟨inner, back, rfl, descends, rfl⟩)
    · exact ⟨[], text, rfl, .level .empty, rfl⟩
    · exact ⟨byte :: inner, back, rfl, descends, rfl⟩

/-- A byte that cannot be the last bracket changes at most how many loops are left to be closed. -/
theorem cons_iff_of_descends {other : Nat} (notLast : byte ≠ Command.loopClose.byte ∨ depth ≠ 0)
    (counts : ∀ inner, Descends depth (ofBytes (byte :: inner)) ↔ Descends other (ofBytes inner)) :
    Closes (byte :: text) depth length ↔
      ∃ shorter, Closes text other shorter ∧ length = shorter + 1 := by
  rw [cons_iff, or_iff_right (by rintro ⟨same, zero, -⟩; exact notLast.elim (· same) (· zero))]
  constructor
  · rintro ⟨inner, back, split, descends, rfl⟩
    exact ⟨_, ⟨inner, back, split, (counts inner).mp descends, rfl⟩, rfl⟩
  · rintro ⟨shorter, ⟨inner, back, split, descends, rfl⟩, rfl⟩
    exact ⟨inner, back, split, (counts inner).mpr descends, rfl⟩

theorem open_iff (decoded : Command.ofByte? byte = some .loopOpen) :
    Closes (byte :: text) depth length ↔
      ∃ shorter, Closes text (depth + 1) shorter ∧ length = shorter + 1 := by
  refine cons_iff_of_descends (.inl ?_) fun inner => ?_
  · rintro rfl
    simp at decoded
  · rw [ofBytes_cons_bracket inner decoded rfl]
    exact Descends.open_iff

theorem close_zero_iff (decoded : Command.ofByte? byte = some .loopClose) :
    Closes (byte :: text) 0 length ↔ length = 1 := by
  obtain rfl := Command.ofByte?_eq_some.mp decoded
  have outer (inner : List UInt8) : ¬ Descends 0 (ofBytes (Command.loopClose.byte :: inner)) := by
    rw [ofBytes_cons_bracket inner decoded rfl]
    exact Descends.not_close_zero
  simp [cons_iff, outer]

theorem close_succ_iff (decoded : Command.ofByte? byte = some .loopClose) :
    Closes (byte :: text) (depth + 1) length ↔
      ∃ shorter, Closes text depth shorter ∧ length = shorter + 1 := by
  refine cons_iff_of_descends (.inr (Nat.succ_ne_zero depth)) fun inner => ?_
  rw [ofBytes_cons_bracket inner decoded rfl]
  exact Descends.close_succ_iff

theorem other_iff (other : ∀ command, Command.ofByte? byte = some command → isBracket command = false) :
    Closes (byte :: text) depth length ↔
      ∃ shorter, Closes text depth shorter ∧ length = shorter + 1 := by
  refine cons_iff_of_descends (.inl ?_) fun inner => by rw [ofBytes_cons_other inner other]
  rintro rfl
  have bracket := other .loopClose (Command.ofByte?_byte _)
  contradiction

end Closes

/-- The search counts the loops that the text leaves open. -/
theorem closingFrom_eq_some_iff (program : Program) {left offset : Nat} (depth : Nat) (stop : Int)
    (span : left = program.size - offset) :
    program.closingFrom left offset depth = some stop ↔
      ∃ length, Closes (program.toList.drop offset) depth length ∧ stop = offset + length := by
  induction left generalizing offset depth with
  | zero =>
      have text : program.toList.drop offset = [] := by simp; omega
      simp [closingFrom, text, Closes]
  | succ left ih =>
      obtain ⟨byte, rest, text⟩ := List.exists_cons_of_length_pos
        (show 0 < (program.toList.drop offset).length by simp; omega)
      have here : program.commandAt? offset = Command.ofByte? byte := by
        rw [commandAt?, byteAt?_of_drop text, Option.bind_some]
      have further {other : Nat} (counts : ∀ length, Closes (byte :: rest) depth length ↔
          ∃ shorter, Closes rest other shorter ∧ length = shorter + 1) :
          program.closingFrom left (offset + 1 : Nat) other = some stop ↔
            ∃ length, Closes (byte :: rest) depth length ∧ stop = offset + length := by
        rw [ih other (by omega), drop_succ_of_drop text]
        constructor
        · rintro ⟨shorter, closes, rfl⟩
          exact ⟨shorter + 1, (counts _).mpr ⟨shorter, closes, rfl⟩, by omega⟩
        · rintro ⟨length, closes, rfl⟩
          obtain ⟨shorter, later, rfl⟩ := (counts length).mp closes
          exact ⟨shorter, later, by omega⟩
      rw [text, closingFrom, here, ← Int.natCast_succ]
      cases decoded : Command.ofByte? byte with
      | none => exact further fun length => Closes.other_iff (by simp [decoded])
      | some command =>
          cases command with
          | loopOpen => exact further fun length => Closes.open_iff decoded
          | loopClose =>
              cases depth with
              | zero => simp [Closes.close_zero_iff decoded, eq_comm]
              | succ depth => exact further fun length => Closes.close_succ_iff decoded
          | right | left | increment | decrement | output | input =>
              refine further fun length => Closes.other_iff fun command same => ?_
              rw [decoded] at same
              cases same
              rfl

/-- The search finds the bracket that follows a balanced text. -/
theorem closing?_eq_some_iff {program : Program} {offset : Nat} {stop : Int} :
    program.closing? offset = some stop ↔
      ∃ inner back, program.toList.drop offset = inner ++ Command.loopClose.byte :: back ∧
        Balanced (ofBytes inner) ∧ stop = offset + inner.length + 1 := by
  rw [closing?, closingFrom_eq_some_iff program 0 stop (by omega)]
  constructor
  · rintro ⟨length, ⟨inner, back, text, descends, rfl⟩, rfl⟩
    cases descends with
    | level balanced => exact ⟨inner, back, text, balanced, by omega⟩
  · rintro ⟨inner, back, text, balanced, rfl⟩
    exact ⟨inner.length + 1, ⟨inner, back, text, .level balanced, rfl⟩, by omega⟩

/-- A closing bracket stands right before the stop, and the brackets from the offset to it are balanced. -/
def EndsLoop (program : Program) (offset : Nat) (stop : Int) : Prop :=
  offset < stop ∧ stop ≤ program.size ∧
    program.byteAt? (stop - 1) = some Command.loopClose.byte ∧
    Balanced (ofBytes (program.toList.extract offset (stop - 1).toNat))

theorem endsLoop_iff {program : Program} {offset : Nat} {stop : Int} :
    program.EndsLoop offset stop ↔
      ∃ inner back, program.toList.drop offset = inner ++ Command.loopClose.byte :: back ∧
        Balanced (ofBytes inner) ∧ stop = offset + inner.length + 1 := by
  constructor
  · rintro ⟨after, within, closing, balanced⟩
    obtain ⟨length, rfl⟩ : ∃ length : Nat, stop = offset + length + 1 :=
      ⟨(stop - 1 - offset).toNat, by omega⟩
    have place : (offset + length + 1 - 1 : Int) = (offset + length : Nat) := by omega
    rw [place, byteAt?_natCast, ← Array.getElem?_toList, ← List.head?_drop] at closing
    obtain ⟨back, here⟩ := List.head?_eq_some_iff.mp closing
    refine ⟨(program.toList.drop offset).take length, back, ?_, ?_, ?_⟩
    · rw [← here, ← List.drop_drop, List.take_append_drop]
    · rw [place, Int.toNat_natCast, List.extract_eq_take_drop, Nat.add_sub_cancel_left] at balanced
      exact balanced
    · simp; omega
  · rintro ⟨inner, back, text, balanced, rfl⟩
    have length := congrArg List.length text
    rw [List.length_drop, Array.length_toList, List.length_append, List.length_cons] at length
    have place : (offset + inner.length + 1 - 1 : Int) = (offset + inner.length : Nat) := by omega
    refine ⟨by omega, by omega, ?_, ?_⟩
    · rw [place]
      exact byteAt?_of_drop (drop_add_length text)
    · rw [place, Int.toNat_natCast, List.extract_eq_take_drop, Nat.add_sub_cancel_left, text,
        List.take_left]
      exact balanced

/--
From an offset on, the search gives the place after a closing bracket exactly if the brackets up to
it are balanced. There is at most one such place, and the search fails only if there is none.
-/
theorem loopEnd_eq_iff_endsLoop (program : Program) (offset : Nat) :
    (∀ stop, program.loopEnd offset = .ok (some stop) ↔ program.EndsLoop offset stop) ∧
    (∀ first second, program.EndsLoop offset first → program.EndsLoop offset second →
      first = second) ∧
    (program.loopEnd offset = .ok none ↔ ∀ stop, ¬ program.EndsLoop offset stop) := by
  have searched : program.loopEnd offset = .ok (program.closing? offset) := if_neg (by omega)
  have found (stop : Int) : program.closing? offset = some stop ↔ program.EndsLoop offset stop :=
    closing?_eq_some_iff.trans endsLoop_iff.symm
  refine ⟨?_, ?_, ?_⟩
  · intro stop
    rw [searched, ← found]
    exact ⟨Except.ok.inj, congrArg Except.ok⟩
  · intro first second left right
    rw [← found] at left right
    exact Option.some.inj (left.symm.trans right)
  · simp only [searched, ← found, ← Option.eq_none_iff_forall_ne_some]
    exact ⟨Except.ok.inj, congrArg Except.ok⟩

/-- The inner loop and the comment are passed, and the bracket after the outer loop is not reached. -/
example : Program.loopEnd #[43, 91, 35, 93, 93, 93] 0 = .ok (some 5) := rfl

end Program

end Brainfuck
