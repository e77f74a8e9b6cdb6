/-
This file proves that text after a program does not change what the program did before its end.
-/

import Brainfuck.Proofs.Run.Transfer
import Brainfuck.Proofs.Session.WellFormed

namespace Brainfuck

namespace Program

variable {program : Program} {position resume : Int}

theorem byteAt?_append {byte : UInt8} (nonneg : 0 ≤ position)
    (found : program.byteAt? position = some byte) (more : Program) :
    Program.byteAt? (program ++ more) position = some byte := by
  obtain ⟨offset, rfl⟩ := Int.eq_ofNat_of_zero_le nonneg
  rw [byteAt?_natCast] at found ⊢
  rw [Array.getElem?_append_left (Array.getElem?_eq_some_iff.mp found).1]
  exact found

theorem commandAt?_append_of_lt {offset : Nat} (inside : offset < program.size) (more : Program) :
    Program.commandAt? (program ++ more) offset = program.commandAt? offset := by
  rw [commandAt?_natCast, commandAt?_natCast, Array.getElem?_append_left inside]

theorem commandAt?_append {command : Command} (nonneg : 0 ≤ position)
    (found : program.commandAt? position = some command) (more : Program) :
    Program.commandAt? (program ++ more) position = some command := by
  obtain ⟨byte, present, decoded⟩ := commandAt?_eq_some.mp found
  exact commandAt?_eq_some.mpr ⟨byte, byteAt?_append nonneg present more, decoded⟩

/-- A search that succeeds does not come to the appended text. -/
theorem closingFrom_append {left offset depth : Nat}
    (found : program.closingFrom left offset depth = some resume)
    (span : offset + left ≤ program.size) (more : Program) (extra : Nat) :
    Program.closingFrom (program ++ more) (left + extra) offset depth = some resume := by
  -- The search of the longer text has more bytes left, and stops before it needs them.
  induction left generalizing offset depth with
  | zero => simp [closingFrom] at found
  | succ left ih =>
      have further {depth : Nat}
          (found : program.closingFrom left (offset + 1 : Nat) depth = some resume) :
          Program.closingFrom (program ++ more) (left + extra) (offset + 1 : Nat) depth = some resume :=
        ih found (by omega)
      rw [Nat.succ_add, closingFrom, commandAt?_append_of_lt (by omega), ← Int.natCast_succ]
      rw [closingFrom, ← Int.natCast_succ] at found
      split at found
      · exact further found
      · by_cases outermost : depth = 0
        · rw [if_pos outermost] at found ⊢
          exact found
        · rw [if_neg outermost] at found ⊢
          exact further found
      · exact further found

theorem closing?_append (nonneg : 0 ≤ position) (found : program.closing? position = some resume)
    (more : Program) : Program.closing? (program ++ more) position = some resume := by
  obtain ⟨less, bound⟩ := closing?_bounds found
  obtain ⟨offset, rfl⟩ := Int.eq_ofNat_of_zero_le nonneg
  have span : ((program ++ more).size - offset : Int).toNat =
      ((program.size : Int) - offset).toNat + more.size := by
    rw [Array.size_append]
    omega
  rw [closing?, span]
  exact closingFrom_append found (by omega) more more.size

end Program

/-- The line and the column of an offset depend only on the text before it. -/
theorem Position.locate_append {source : Array UInt8} {offset : Int} (inside : offset ≤ source.size)
    (more : Array UInt8) : locate (source ++ more) offset = locate source offset := by
  have here : clamp source.size offset = offset.toNat := Nat.min_eq_left (by omega)
  have there : clamp (source ++ more).size offset = offset.toNat :=
    Nat.min_eq_left (by rw [Array.size_append]; omega)
  rw [locate, locate, here, there, Array.toList_append,
    List.take_append_of_le_length (by rw [Array.length_toList]; omega)]

namespace Machine

/-- More text follows the program of the machine. -/
def extended (machine : Machine) (more : Program) : Machine :=
  { machine with program := machine.program ++ more }

variable {machine next : Machine} {result : StepResult}

/-- Only the search for a bracket that the text does not have can tell whether it goes on. -/
theorem Executing.extended {command : Command} (executing : machine.Executing command (result, next))
    (nonneg : 0 ≤ machine.ip) (matched : ∀ offset, result ≠ .failed (.fault offset .unmatchedOpen))
    (more : Program) : (machine.extended more).Executing command (result, next.extended more) := by
  cases executing with
  | basic same applied => exact .basic same applied
  | offTape same failed => exact .offTape same failed
  | tooDeep same full => exact .tooDeep same full
  | entered same nonzero kept pushed => exact .entered same nonzero kept pushed
  | skipped same room zero found =>
      exact .skipped same room zero (Program.closing?_append nonneg found more)
  | unmatchedOpen same room zero missing => exact absurd rfl (matched _)
  | unmatchedClose same empty => exact .unmatchedClose same empty
  | left same top zero => exact .left same top zero
  | repeated same top nonzero => exact .repeated same top nonzero

/-- Before the end of the text a step does not notice that more text follows. -/
theorem step_extended (stepped : machine.step = (result, next)) (nonneg : 0 ≤ machine.ip)
    (inside : machine.ip < machine.program.size)
    (matched : ∀ offset, result ≠ .failed (.fault offset .unmatchedOpen)) (more : Program) :
    (machine.extended more).step = (result, next.extended more) := by
  cases stepping_of_eq stepped with
  | exhausted past => omega
  | outOfText inside missing =>
      have past := Program.size_le_of_byteAt? nonneg missing
      omega
  | comment found plain => exact step_comment (Program.byteAt?_append nonneg found more) plain
  | spent found spent => exact step_spent (Program.commandAt?_append nonneg found more) spent
  | @command command _ found free executed =>
      have here : (machine.extended more).program.commandAt? (machine.extended more).ip =
        some command := Program.commandAt?_append nonneg found more
      have acted := (executing_of_eq executed).extended (Int.le_add_one nonneg) matched more
      exact (step_command here free).trans acted.eq

/-- The other machine runs the same program with more text after it. -/
structure Heads (program : Program) (limits : Limits) (more : Program) (machine other : Machine) :
    Prop where
  formed : machine.WellFormed program limits
  mirrors : machine.Mirrors (·.extended more) other

namespace Heads

variable {program more : Program} {limits : Limits} {other : Machine}

/-- The run of the program is followed whether or not the other machine notes its own beginning. -/
theorem start (program more : Program) (limits : Limits) (input : List UInt8) (notes : Array Note) :
    Heads program limits more (Machine.start program limits input).announce
      ((Machine.start (program ++ more) limits input).noted notes) := by
  have formed := WellFormed.start program limits input
  exact ⟨{ formed with }, notes, rfl⟩

/-- The other machine follows every step before the end of the program. -/
theorem step (heads : Heads program limits more machine other)
    (stepped : machine.step = (result, next)) (inside : machine.ip < machine.program.size)
    (matched : ∀ offset, result ≠ .failed (.fault offset .unmatchedOpen)) :
    ∃ otherNext, other.step = (result, otherNext) ∧ Heads program limits more next otherNext := by
  have kept := heads.formed.step
  rw [stepped] at kept
  have commutes := step_extended stepped heads.formed.nonneg inside matched more
  obtain ⟨otherNext, followed, mirrors⟩ := heads.mirrors.step commutes
  exact ⟨otherNext, followed, kept, mirrors⟩

theorem move (heads : Heads program limits more machine other)
    (moved : machine.step = (.moved, next)) :
    ∃ otherNext, other.step = (.moved, otherNext) ∧ Heads program limits more next otherNext := by
  refine heads.step moved ?_ (by simp)
  cases stepping_of_eq moved with
  | comment found plain => exact Program.lt_size_of_byteAt? found
  | command found free executed => exact Program.lt_size_of_commandAt? found

/-- A failure before the end of the program is followed, unless a loop had no end. -/
theorem fail (heads : Heads program limits more machine other) {failure : Failure}
    (matched : ∀ offset, failure ≠ .fault offset .unmatchedOpen)
    (failed : machine.step = (.failed failure, next)) :
    ∃ otherNext, other.step = (.failed failure, otherNext) ∧
      Heads program limits more next otherNext := by
  refine heads.step failed ?_ fun offset same => matched offset (StepResult.failed.inj same)
  cases stepping_of_eq failed with
  | outOfText inside missing => exact inside
  | spent found spent => exact Program.lt_size_of_commandAt? found
  | command found free executed => exact Program.lt_size_of_commandAt? found

/-- Apart from the notes only the text of the two machines differs. -/
theorem exists_eq (heads : Heads program limits more machine other) :
    ∃ notes, other = { machine with program := program ++ more, notes } := by
  obtain ⟨formed, notes, rfl⟩ := heads
  exact ⟨notes, by rw [← formed.text]; rfl⟩

end Heads

end Machine

open Machine in
/--
After as many steps as a program needs to complete, a machine with more text stands at its end in
the same state. A program that fails, other than at a loop without an end, fails in the same way
when more text follows it.
-/
theorem appended_text_keeps_run (program more : Program) (limits : Limits) (input : List UInt8) :
    (∀ count last, (start program limits input).CompletesAfter count last →
      last.ip = program.size ∧ ∃ notes, (start (program ++ more) limits input).after count =
        some { last with program := program ++ more, notes }) ∧
    ∀ failure last, (start program limits input).Finishes (.failed failure) last →
      (∀ offset, failure ≠ .fault offset .unmatchedOpen) →
        ∃ offset cause notes, failure = .fault offset cause ∧
          (start (program ++ more) limits input).Finishes (.failed (.fault offset cause))
            { last with program := program ++ more, notes } ∧
          (Report.ofFault cause (program ++ more) offset).position =
            (Report.ofFault cause program offset).position := by
  constructor
  · intro count last completed
    obtain ⟨stopped, final, found, exhausted, rfl⟩ := completed.exists_after
    obtain ⟨past, rfl⟩ := step_exhausted exhausted
    obtain ⟨other, followed, heads⟩ :=
      after_of_related (fun _ _ _ => Heads.move) found (.start program more limits input #[])
    obtain ⟨notes, same⟩ := heads.exists_eq
    have inside := heads.formed.inside
    rw [heads.formed.text] at past
    rw [same] at followed
    rw [show final.conclude = { final with notes := final.conclude.notes } from
      close_eq .completed final]
    exact ⟨Int.le_antisymm inside past, notes, followed⟩
  · intro failure last failed matched
    obtain ⟨_, ended, rfl⟩ := finishes_iff.mp failed
    have heads := Heads.start program more limits input
      (start (program ++ more) limits input).announce.notes
    obtain ⟨stopped, offset, cause, -, formed, rfl, final⟩ := heads.formed.exists_fault ended
    obtain ⟨other, followed, closing⟩ := ended.of_related (fun _ _ _ => Heads.move) heads
      fun _ _ _ heads failed => heads.fail matched failed
    obtain ⟨notes, same⟩ := closing.exists_eq
    rw [same] at followed
    refine ⟨offset, cause, notes, rfl, finishes_iff.mpr ⟨_, followed, rfl⟩, ?_⟩
    obtain ⟨rfl, -⟩ := step_fault final
    exact Position.locate_append formed.inside more

open Machine in
/--
The first program leaves its loop open, and the appended text would close it. The second one skips
a loop and fails in its second line, before the loop that the appended text leaves without an end.
-/
theorem appended_text_keeps_run_open_loop :
    (∃ last notes, (start #[43, 91] ⟨1, 1, none, by decide, by decide⟩ []).CompletesAfter 2 last ∧
      last.ip = 2 ∧ last.loops.frames = [Frame.ofOrigin 1] ∧
      (start (#[43, 91] ++ #[45, 93]) ⟨1, 1, none, by decide, by decide⟩ []).after 2 =
        some { last with program := #[43, 91] ++ #[45, 93], notes }) ∧
    ∃ last notes, (start #[91, 93, 10, 60] ⟨1, 1, none, by decide, by decide⟩ []).Finishes
        (.failed (.fault 3 (.offTape .left))) last ∧
      (start (#[91, 93, 10, 60] ++ #[91]) ⟨1, 1, none, by decide, by decide⟩ []).Finishes
        (.failed (.fault 3 (.offTape .left)))
        { last with program := #[91, 93, 10, 60] ++ #[91], notes } := by
  constructor
  · have completed : ∃ last, (start #[43, 91] ⟨1, 1, none, by decide, by decide⟩ []).CompletesAfter 2
        last ∧ last.loops.frames = [Frame.ofOrigin 1] := ⟨_, ⟨rfl, rfl⟩, rfl⟩
    obtain ⟨last, completed, frames⟩ := completed
    obtain ⟨place, notes, followed⟩ := (appended_text_keeps_run _ #[45, 93] _ _).1 2 last completed
    exact ⟨last, notes, completed, place, frames, followed⟩
  · have failed : ∃ last, (start #[91, 93, 10, 60] ⟨1, 1, none, by decide, by decide⟩ []).Finishes
        (.failed (.fault 3 (.offTape .left))) last := ⟨_, 3, rfl⟩
    obtain ⟨last, failed⟩ := failed
    obtain ⟨offset, cause, notes, same, followed, -⟩ :=
      (appended_text_keeps_run _ #[91] _ _).2 _ last failed (by simp)
    cases same
    exact ⟨last, notes, failed, followed⟩

end Brainfuck
