/-
This file proves that a machine evaluates the tree that its text spells.
-/

import Brainfuck.Proofs.Code.Position
import Brainfuck.Proofs.Code.Spelling

namespace Brainfuck

namespace Machine

/--
The machine is about to run the tree. It stands before the text of the tree, or it stands at the
closing bracket of a loop that it has entered.
-/
inductive Stands (program : Program) (capacity : Nat) :
    Code → Nat → List Frame → Memory → Machine → Prop where
  | entry {code : Code} {start stop : Nat} {frames : List Frame} {memory : Memory}
      {machine : Machine} (layout : Layout program code start stop)
      (room : frames.length + code.depth ≤ capacity)
      (placed : machine.At program capacity start frames memory) :
      Stands program capacity code stop frames memory machine
  | closing {body rest : Code} {origin closer stop : Nat} {frames : List Frame} {memory : Memory}
      {machine : Machine} (opened : program.commandAt? origin = some .loopOpen)
      (inner : Layout program body (origin + 1) closer)
      (closed : program.commandAt? closer = some .loopClose)
      (after : Layout program rest (closer + 1) stop)
      (room : frames.length + (Code.loop body rest).depth ≤ capacity)
      (placed : machine.At program capacity closer (Frame.ofOrigin origin :: frames) memory) :
      Stands program capacity (.loop body rest) stop frames memory machine

/-- This is what a verdict on the tree means for the machine that stands before it. -/
def Arrives (program : Program) (capacity stop : Nat) (frames : List Frame) (machine : Machine) :
    Verdict → Prop
  | .finished last =>
      ∃ later, machine.Reaches later ∧ later.At program capacity stop frames last
  | .faulted edge last =>
      ∃ offset final, machine.Ends (.failed (.fault offset (.offTape edge))) final ∧
        final.memory = last

theorem Arrives.of_reaches {program : Program} {capacity stop : Nat} {frames : List Frame}
    {machine later : Machine} {verdict : Verdict} (reached : machine.Reaches later)
    (arrives : later.Arrives program capacity stop frames verdict) :
    machine.Arrives program capacity stop frames verdict := by
  cases verdict with
  | finished last =>
      obtain ⟨final, rest, placed⟩ := arrives
      exact ⟨final, reached.trans rest, placed⟩
  | faulted edge last =>
      obtain ⟨offset, final, ended, same⟩ := arrives
      exact ⟨offset, final, reached.ends_iff.mpr ended, same⟩

namespace Stands

variable {program : Program} {capacity stop : Nat} {frames : List Frame} {memory next : Memory}
  {machine : Machine} {action : Basic} {body rest : Code}

theorem done (stands : Stands program capacity .done stop frames memory machine) :
    machine.Arrives program capacity stop frames (.finished memory) := by
  cases stands with
  | entry layout room placed =>
      cases layout with
      | done lead => exact placed.reaches_silent lead

/-- A basic command that has a result leads to the tree after it. -/
theorem basic (stands : Stands program capacity (.basic action rest) stop frames memory machine)
    (applied : action.effect memory = .ok next) :
    ∃ later, machine.Advances later ∧ Stands program capacity rest stop frames next later := by
  cases stands with
  | entry layout room placed =>
      cases layout with
      | basic lead found after =>
          obtain ⟨here, reached, arrived⟩ := placed.reaches_silent lead
          obtain ⟨later, moved, acted⟩ := arrived.basic found applied
          exact ⟨later, .of_reaches reached (.of_step moved), .entry after room acted⟩

/-- A move off the tape ends the run with the memory from before it. -/
theorem fault {edge : Tape.Edge}
    (stands : Stands program capacity (.basic action rest) stop frames memory machine)
    (failed : action.effect memory = .error edge) :
    machine.Arrives program capacity stop frames (.faulted edge memory) := by
  cases stands with
  | entry layout room placed =>
      cases layout with
      | @basic _ _ _ place _ lead found after =>
          obtain ⟨here, reached, arrived⟩ := placed.reaches_silent lead
          refine ⟨place, here.counted, ends_iff.mpr ⟨here, reached, arrived.fault found failed⟩, ?_⟩
          exact arrived.counted.memory

/-- A loop over a zero cell leads to the tree after it. -/
theorem skip (stands : Stands program capacity (.loop body rest) stop frames memory machine)
    (zero : memory.current = 0) :
    ∃ later, machine.Advances later ∧ Stands program capacity rest stop frames memory later := by
  cases stands with
  | entry layout room placed =>
      rw [Code.depth] at room
      cases layout with
      | loop lead opened inner closed after =>
          obtain ⟨here, reached, arrived⟩ := placed.reaches_silent lead
          obtain ⟨later, moved, passed⟩ :=
            arrived.skip opened (by omega) zero (inner.closing?_eq closed)
          exact ⟨later, .of_reaches reached (.of_step moved), .entry after (by omega) passed⟩
  | closing opened inner closed after room placed =>
      rw [Code.depth] at room
      obtain ⟨later, moved, left⟩ := placed.leave closed zero
      exact ⟨later, .of_step moved, .entry after (by omega) left⟩

/-- A loop over any other cell leads to its body, and the end of the body leads back to it. -/
theorem again (stands : Stands program capacity (.loop body rest) stop frames memory machine)
    (nonzero : memory.current ≠ 0) :
    ∃ closer inside later, machine.Advances later ∧
      Stands program capacity body closer inside memory later ∧
      ∀ next final, final.At program capacity closer inside next →
        Stands program capacity (.loop body rest) stop frames next final := by
  cases stands with
  | entry layout room placed =>
      have bound := room
      rw [Code.depth] at bound
      cases layout with
      | @loop _ _ _ origin closer _ lead opened inner closed after =>
          obtain ⟨here, reached, arrived⟩ := placed.reaches_silent lead
          obtain ⟨later, moved, entered⟩ := arrived.enter opened (by omega) nonzero
          refine ⟨closer, Frame.ofOrigin origin :: frames, later,
            .of_reaches reached (.of_step moved), ?_, ?_⟩
          · exact .entry inner (by rw [List.length_cons]; omega) entered
          · intro next final back
            exact .closing opened inner closed after room back
  | @closing _ _ origin closer _ _ _ _ opened inner closed after room placed =>
      have bound := room
      rw [Code.depth] at bound
      obtain ⟨later, moved, again⟩ := placed.again closed nonzero
      refine ⟨closer, Frame.ofOrigin origin :: frames, later, .of_step moved, ?_, ?_⟩
      · exact .entry inner (by rw [List.length_cons]; omega) again
      · intro next final back
        exact .closing opened inner closed after room back

/-- The machine does what the tree says. -/
theorem arrives {code : Code} {verdict : Verdict}
    (stands : Stands program capacity code stop frames memory machine)
    (evaluated : Evaluates code memory verdict) :
    machine.Arrives program capacity stop frames verdict := by
  induction evaluated generalizing stop frames machine with
  | done memory => exact stands.done
  | basic applied _ ih =>
      obtain ⟨later, advanced, onward⟩ := stands.basic applied
      exact .of_reaches advanced.reaches (ih onward)
  | fault failed => exact stands.fault failed
  | skip zero _ ih =>
      obtain ⟨later, advanced, onward⟩ := stands.skip zero
      exact .of_reaches advanced.reaches (ih onward)
  | again nonzero _ _ bodyIh loopIh =>
      obtain ⟨closer, inside, later, advanced, inner, back⟩ := stands.again nonzero
      obtain ⟨final, reached, placed⟩ := bodyIh inner
      exact .of_reaches (advanced.reaches.trans reached) (loopIh (back _ final placed))
  | broken nonzero _ bodyIh =>
      obtain ⟨closer, inside, later, advanced, inner, -⟩ := stands.again nonzero
      obtain ⟨offset, final, ended, same⟩ := bodyIh inner
      exact ⟨offset, final, advanced.reaches.ends_iff.mpr ended, same⟩

/-- A machine that ends gives the tree a verdict. -/
theorem exists_evaluates {code : Code} {fuel : Nat} {result : Ending × Machine}
    (stands : Stands program capacity code stop frames memory machine)
    (ended : machine.runFor fuel = some result) : ∃ verdict, Evaluates code memory verdict := by
  induction fuel using Nat.strongRecOn generalizing code stop frames memory machine with
  | ind fuel ih =>
      cases code with
      | done => exact ⟨_, .done memory⟩
      | basic action rest =>
          cases applied : action.effect memory with
          | error edge => exact ⟨_, .fault applied⟩
          | ok next =>
              obtain ⟨later, advanced, onward⟩ := stands.basic applied
              obtain ⟨less, smaller, rest⟩ := advanced.exists_runFor ended
              obtain ⟨verdict, evaluated⟩ := ih less smaller onward rest
              exact ⟨verdict, .basic applied evaluated⟩
      | loop body rest =>
          by_cases zero : memory.current = 0
          · obtain ⟨later, advanced, onward⟩ := stands.skip zero
            obtain ⟨less, smaller, rest⟩ := advanced.exists_runFor ended
            obtain ⟨verdict, evaluated⟩ := ih less smaller onward rest
            exact ⟨verdict, .skip zero evaluated⟩
          · obtain ⟨closer, inside, later, advanced, inner, back⟩ := stands.again zero
            obtain ⟨less, smaller, rest⟩ := advanced.exists_runFor ended
            obtain ⟨verdict, evaluated⟩ := ih less smaller inner rest
            cases verdict with
            | faulted edge last => exact ⟨_, .broken zero evaluated⟩
            | finished next =>
                obtain ⟨final, reached, placed⟩ := inner.arrives evaluated
                have onward := runFor_of_reaches reached rest
                obtain ⟨verdict, repeated⟩ := ih less smaller (back next final placed) onward
                exact ⟨verdict, .again zero evaluated repeated⟩

end Stands

end Machine

section Whole

open Machine

variable {program : Program} {code : Code} {limits : Limits} {input : List UInt8}

/-- A new machine is about to run the tree that its text spells. -/
theorem stands_start (spelled : Code.Spells program code) (room : code.depth ≤ limits.loopDepth)
    (unlimited : limits.stepLimit = none) :
    Stands program limits.loopDepth code program.size [] (start program limits input).memory
      (start program limits input).announce := by
  have placed : (start program limits input).announce.At program limits.loopDepth 0 []
      (start program limits input).memory :=
    ⟨rfl, stepLimit_start unlimited program input, rfl, rfl, rfl, rfl⟩
  refine .entry (Layout.of_spells spelled) ?_ placed
  rw [List.length_nil, Nat.zero_add]
  exact room

/-- A machine at the end of its text completes the run with its memory. -/
theorem finishes_of_arrives {machine : Machine} {capacity : Nat} {memory : Memory}
    (arrives : machine.announce.Arrives program capacity program.size [] (.finished memory)) :
    ∃ last, machine.Finishes .completed last ∧ last.memory = memory ∧ last.loops.frames = [] := by
  obtain ⟨later, reached, placed⟩ := arrives
  have past : later.program.size ≤ later.ip := by
    rw [placed.program]
    exact Int.le_of_eq placed.place.symm
  have ended : machine.announce.Ends .completed later :=
    ends_iff.mpr ⟨later, reached, step_of_size_le past⟩
  refine ⟨Ending.close .completed later, finishes_iff.mpr ⟨later, ended, rfl⟩, ?_⟩
  rw [close_eq]
  exact ⟨placed.memory, placed.frames⟩

/-- A run that ends gives the tree a verdict, and the verdict tells how the run ends. -/
theorem exists_verdict_of_finishes {ending : Ending} {last : Machine}
    (spelled : Code.Spells program code) (room : code.depth ≤ limits.loopDepth)
    (unlimited : limits.stepLimit = none)
    (finished : (start program limits input).Finishes ending last) :
    (ending = .completed ∧ last.loops.frames = [] ∧
      Evaluates code (start program limits input).memory (.finished last.memory)) ∨
    ∃ offset edge, ending = .failed (.fault offset (.offTape edge)) ∧
      Evaluates code (start program limits input).memory (.faulted edge last.memory) := by
  have stands : Stands program _ code _ [] _ (start program limits input).announce :=
    stands_start spelled room unlimited
  obtain ⟨stopped, ⟨fuel, ended⟩, -⟩ := finishes_iff.mp finished
  obtain ⟨verdict, evaluated⟩ := stands.exists_evaluates ended
  cases verdict with
  | finished memory =>
      obtain ⟨other, completed, rfl, closed⟩ := finishes_of_arrives (stands.arrives evaluated)
      obtain ⟨rfl, rfl⟩ := finished.unique completed
      exact .inl ⟨rfl, closed, evaluated⟩
  | faulted edge memory =>
      obtain ⟨offset, final, failed, rfl⟩ := stands.arrives evaluated
      obtain ⟨rfl, rfl⟩ := finished.unique (finishes_iff.mpr ⟨final, failed, rfl⟩)
      exact .inr ⟨offset, edge, rfl, evaluated⟩

theorem evaluates_of_completed {last : Machine} (spelled : Code.Spells program code)
    (room : code.depth ≤ limits.loopDepth) (unlimited : limits.stepLimit = none)
    (completed : (start program limits input).Finishes .completed last) :
    last.loops.frames = [] ∧
      Evaluates code (start program limits input).memory (.finished last.memory) := by
  rcases exists_verdict_of_finishes spelled room unlimited completed with ended | fell
  · exact ended.2
  · obtain ⟨offset, edge, other, -⟩ := fell
    cases other

theorem evaluates_of_failed {failure : Failure} {last : Machine}
    (spelled : Code.Spells program code) (room : code.depth ≤ limits.loopDepth)
    (unlimited : limits.stepLimit = none)
    (failed : (start program limits input).Finishes (.failed failure) last) :
    ∃ offset edge, failure = .fault offset (.offTape edge) ∧
      Evaluates code (start program limits input).memory (.faulted edge last.memory) := by
  rcases exists_verdict_of_finishes spelled room unlimited failed with ended | fell
  · cases ended.1
  · obtain ⟨offset, edge, same, evaluated⟩ := fell
    cases same
    exact ⟨offset, edge, rfl, evaluated⟩

end Whole

open Machine in
/--
A text with balanced brackets spells one tree. If its loops fit into the stack and there is no step
limit, then the run ends as the tree evaluates, and it fails only off the tape.
-/
theorem run_iff_evaluates (program : Program)
    (balanced : Brackets.Balanced (Brackets.ofBytes program.toList)) :
    ∃ code, Code.Spells program code ∧ (∀ other, Code.Spells program other → other = code) ∧
      ∀ (limits : Limits) (input : List UInt8), code.depth ≤ limits.loopDepth →
        limits.stepLimit = none →
        (∀ memory, (∃ last, (start program limits input).Finishes .completed last ∧
            last.memory = memory ∧ last.loops.frames = []) ↔
          Evaluates code (Memory.initial limits.tapeSize limits.hasCell (input.map UInt8.toNat))
            (.finished memory)) ∧
        (∀ edge memory, (∃ offset last, (start program limits input).Finishes
            (.failed (.fault offset (.offTape edge))) last ∧ last.memory = memory) ↔
          Evaluates code (Memory.initial limits.tapeSize limits.hasCell (input.map UInt8.toNat))
            (.faulted edge memory)) ∧
        (∀ last, (start program limits input).Finishes .completed last →
          last.loops.frames = []) ∧
        ∀ failure last, (start program limits input).Finishes (.failed failure) last →
          ∃ offset edge, failure = .fault offset (.offTape edge) := by
  obtain ⟨code, spelled⟩ := Code.exists_spells balanced
  refine ⟨code, spelled, fun other again => again.unique spelled, ?_⟩
  intro limits input room unlimited
  rw [← memory_start program limits input]
  have stands : Stands program _ code _ [] _ (start program limits input).announce :=
    stands_start spelled room unlimited
  refine ⟨?_, ?_, ?_, ?_⟩
  · intro memory
    constructor
    · intro ended
      obtain ⟨last, completed, rfl, -⟩ := ended
      exact (evaluates_of_completed spelled room unlimited completed).2
    · intro evaluated
      exact finishes_of_arrives (stands.arrives evaluated)
  · intro edge memory
    constructor
    · intro ended
      obtain ⟨offset, last, failed, rfl⟩ := ended
      obtain ⟨_, _, same, evaluated⟩ := evaluates_of_failed spelled room unlimited failed
      cases same
      exact evaluated
    · intro evaluated
      obtain ⟨offset, final, failed, same⟩ := stands.arrives evaluated
      exact ⟨offset, final, finishes_iff.mpr ⟨final, failed, rfl⟩, same⟩
  · intro last completed
    exact (evaluates_of_completed spelled room unlimited completed).1
  · intro failure last failed
    obtain ⟨offset, edge, same, -⟩ := evaluates_of_failed spelled room unlimited failed
    exact ⟨offset, edge, same⟩

/-- The text `-[#>,.<+]>>+,-` needs three cells, and a tape of two cells is left at its last `>`. -/
theorem run_iff_evaluates_three_cells :
    ∃ code, Code.Spells #[45, 91, 35, 62, 44, 46, 60, 43, 93, 62, 62, 43, 44, 45] code ∧
      Evaluates code (Memory.initial 3 (by decide) [7])
        (.finished ⟨[0, 7, 255], 2, by decide, [], [7]⟩) ∧
      (∃ last, (Machine.start #[45, 91, 35, 62, 44, 46, 60, 43, 93, 62, 62, 43, 44, 45]
          ⟨3, 1, none, by decide, by decide⟩ [7]).Finishes .completed last ∧
        last.tape.cells = #[0, 7, 255] ∧ last.tape.cursor = 2 ∧ last.input = [] ∧
        last.output = #[7] ∧ last.loops.frames = []) ∧
      Evaluates code (Memory.initial 2 (by decide) [7])
        (.faulted (.right 1) ⟨[0, 7], 1, by decide, [], [7]⟩) ∧
      ∃ last, (Machine.start #[45, 91, 35, 62, 44, 46, 60, 43, 93, 62, 62, 43, 44, 45]
          ⟨2, 1, none, by decide, by decide⟩ [7]).Finishes
            (.failed (.fault 10 (.offTape (.right 1)))) last ∧
        last.tape.cells = #[0, 7] ∧ last.tape.cursor = 1 ∧ last.input = [] ∧
        last.output = #[7] := by
  obtain ⟨code, spelled, only, whole⟩ :=
    run_iff_evaluates #[45, 91, 35, 62, 44, 46, 60, 43, 93, 62, 62, 43, 44, 45]
      (.wrap .empty .empty)
  obtain rfl := only
    (.basic .decrement
      (.loop
        (.basic .right (.basic .input (.basic .output (.basic .left (.basic .increment .done)))))
        (.basic .right
          (.basic .right (.basic .increment (.basic .input (.basic .decrement .done)))))))
    rfl
  obtain ⟨finished, -, -, -⟩ := whole ⟨3, 1, none, by decide, by decide⟩ [7] (by decide) rfl
  obtain ⟨-, faulted, -, -⟩ := whole ⟨2, 1, none, by decide, by decide⟩ [7] (by decide) rfl
  refine ⟨_, spelled, (finished _).mp ⟨_, ⟨15, rfl⟩, rfl, rfl⟩,
    ⟨_, ⟨15, rfl⟩, rfl, rfl, rfl, rfl, rfl⟩, (faulted _ _).mp ⟨10, _, ⟨15, rfl⟩, rfl⟩,
    ⟨_, ⟨15, rfl⟩, rfl, rfl, rfl, rfl⟩⟩

end Brainfuck
