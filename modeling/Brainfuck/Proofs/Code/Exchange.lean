/-
This file exchanges a part of a text that only counts for another one that counts as much.
-/

import Brainfuck.Proofs.Brackets.Balance
import Brainfuck.Proofs.Code.Alignment
import Brainfuck.Proofs.Code.Tracking
import Brainfuck.Proofs.Code.Walk

namespace Brainfuck

namespace Program

open Brackets

/-- So many more increments than decrements stand in the text. -/
def netCount (program : Program) : Int :=
  (program.commands.count .increment : Int) - program.commands.count .decrement

/-- Both parts only count in the current cell, and their net counts agree modulo 256. -/
structure CountAlike (middle other : Program) : Prop where
  counts : ∀ command ∈ middle.commands, command.counts = true
  otherCounts : ∀ command ∈ other.commands, command.counts = true
  same : middle.netCount % 256 = other.netCount % 256

theorem CountAlike.symm {middle other : Program} (alike : middle.CountAlike other) :
    other.CountAlike middle :=
  ⟨alike.otherCounts, alike.counts, alike.same.symm⟩

/-- Up to the exchanged part two places are equal, and after it they are equally far behind it. -/
inductive Corresponds (front middle other : Program) : Int → Int → Prop where
  | front {offset : Nat} (within : offset ≤ front.size) : Corresponds front middle other offset offset
  | back (distance : Nat) : Corresponds front middle other
      (front.size + middle.size + distance : Nat) (front.size + other.size + distance : Nat)

/-- At both places stands the same byte of the text around the exchanged part. -/
inductive Beside (front middle other back : Program) : Int → Int → Prop where
  | front {offset : Nat} (inside : offset < front.size) : Beside front middle other back offset offset
  | back {distance : Nat} (inside : distance < back.size) : Beside front middle other back
      (front.size + middle.size + distance : Nat) (front.size + other.size + distance : Nat)

variable {front middle other back : Program} {position otherPosition resume : Int}

theorem drop_front {offset : Nat} (within : offset ≤ front.size) (middle back : Program) :
    (front ++ middle ++ back : Program).toList.drop offset =
      front.toList.drop offset ++ (middle.toList ++ back.toList) := by
  rw [Array.toList_append, Array.toList_append, List.append_assoc,
    List.drop_append_of_le_length (by rw [Array.length_toList]; exact within)]

theorem drop_back (front middle back : Program) (distance : Nat) :
    (front ++ middle ++ back : Program).toList.drop (front.size + middle.size + distance) =
      back.toList.drop distance := by
  have length : front.size + middle.size = (front ++ middle : Program).toList.length := by simp
  rw [Array.toList_append, length, List.drop_append, List.drop_of_length_le (by omega),
    List.nil_append, Nat.add_sub_cancel_left]

namespace Beside

theorem exists_byteAt? (beside : Beside front middle other back position otherPosition) :
    ∃ byte, Program.byteAt? (front ++ middle ++ back) position = some byte ∧
      Program.byteAt? (front ++ other ++ back) otherPosition = some byte := by
  cases beside with
  | @front offset inside =>
      have text := List.drop_eq_getElem_cons (show offset < front.toList.length from inside)
      have found (part : Program) : Program.byteAt? (front ++ part ++ back) offset =
          some front.toList[offset] := by
        have here := drop_front (Nat.le_of_lt inside) part back
        rw [text, List.cons_append] at here
        exact byteAt?_of_drop here
      exact ⟨_, found middle, found other⟩
  | @back distance inside =>
      have text := List.drop_eq_getElem_cons (show distance < back.toList.length from inside)
      have found (part : Program) : Program.byteAt? (front ++ part ++ back)
          (front.size + part.size + distance : Nat) = some back.toList[distance] :=
        byteAt?_of_drop ((drop_back front part back distance).trans text)
      exact ⟨_, found middle, found other⟩

/-- The bytes after the two places correspond again. -/
theorem next (beside : Beside front middle other back position otherPosition) :
    Corresponds front middle other (position + 1) (otherPosition + 1) := by
  cases beside with
  | front inside =>
      rw [← Int.natCast_succ]
      exact .front inside
  | @back distance inside =>
      rw [← Int.natCast_succ, ← Int.natCast_succ]
      exact .back (distance + 1)

end Beside

namespace CountAlike

theorem ofBytes_eq_nil (alike : middle.CountAlike other) : ofBytes middle.toList = [] :=
  Walk.ofBytes_of_walks fun command member => Command.walks_of_counts (alike.counts command member)

theorem loopClose_notMem (alike : middle.CountAlike other) :
    Command.loopClose.byte ∉ middle.toList := by
  intro member
  have counts := alike.counts .loopClose
    (List.mem_filterMap.mpr ⟨_, member, Command.ofByte?_byte .loopClose⟩)
  contradiction

end CountAlike

/-- A byte that the middle of a text does not have stands before or behind that middle. -/
theorem split_at_byte {front middle back inner after : List UInt8} {byte : UInt8}
    (absent : byte ∉ middle) (text : front ++ (middle ++ back) = inner ++ byte :: after) :
    (∃ rest, front = inner ++ byte :: rest) ∨
      ∃ deep, inner = front ++ (middle ++ deep) ∧ back = deep ++ byte :: after := by
  have split {first second inner : List UInt8} (text : first ++ second = inner ++ byte :: after) :
      (∃ rest, first = inner ++ byte :: rest) ∨
        ∃ deep, inner = first ++ deep ∧ second = deep ++ byte :: after := by
    rcases List.append_eq_append_iff.mp text with ⟨deep, rfl, later⟩ | ⟨rest, rfl, later⟩
    · exact .inr ⟨deep, rfl, later⟩
    · rcases List.cons_eq_append_iff.mp later with ⟨rfl, rfl⟩ | ⟨rest, rfl, rfl⟩
      · exact .inr ⟨[], by simp, rfl⟩
      · exact .inl ⟨rest, rfl⟩
  rcases split text with early | ⟨inner, rfl, later⟩
  · exact .inl early
  · rcases split later with ⟨rest, rfl⟩ | ⟨deep, rfl, last⟩
    · exact absurd (by simp) absent
    · exact .inr ⟨deep, rfl, last⟩

namespace Corresponds

theorem symm (places : Corresponds front middle other position otherPosition) :
    Corresponds front other middle otherPosition position := by
  cases places with
  | front within => exact .front within
  | back distance => exact .back distance

/-- The exchanged part has no brackets, so a loop around it ends at corresponding places. -/
theorem exists_closing? (alike : middle.CountAlike other)
    (places : Corresponds front middle other position otherPosition)
    (found : Program.closing? (front ++ middle ++ back) position = some resume) :
    ∃ otherResume, Program.closing? (front ++ other ++ back) otherPosition = some otherResume ∧
      Corresponds front middle other resume otherResume := by
  cases places with
  | @front offset within =>
      obtain ⟨inner, after, text, balanced, rfl⟩ := closing?_eq_some_iff.mp found
      rw [drop_front within] at text
      -- The closing bracket stands before the exchanged part or behind it.
      rcases split_at_byte alike.loopClose_notMem text with ⟨rest, early⟩ | ⟨deep, rfl, late⟩
      · have length := congrArg List.length early
        simp only [List.length_drop, List.length_append, List.length_cons,
          Array.length_toList] at length
        have stop : (offset + inner.length + 1 : Int) = (offset + inner.length + 1 : Nat) := rfl
        refine ⟨_, closing?_eq_some_iff.mpr ⟨inner, rest ++ (other.toList ++ back.toList), ?_, balanced,
          rfl⟩, ?_⟩
        · rw [drop_front within, early, List.append_assoc, List.cons_append]
        · rw [stop]
          exact .front (by omega)
      · refine ⟨_, closing?_eq_some_iff.mpr ⟨front.toList.drop offset ++ (other.toList ++ deep), after,
          ?_, ?_, rfl⟩, ?_⟩
        · simp only [drop_front within, late, List.append_assoc]
        · simpa only [ofBytes_append, alike.ofBytes_eq_nil, alike.symm.ofBytes_eq_nil] using balanced
        · have stop (part : Program) : (offset + (front.toList.drop offset ++
              (part.toList ++ deep)).length + 1 : Int) =
              (front.size + part.size + (deep.length + 1) : Nat) := by
            simp only [List.length_append, List.length_drop, Array.length_toList]
            omega
          rw [stop middle, stop other]
          exact .back _
  | back distance =>
      obtain ⟨inner, after, text, balanced, rfl⟩ := closing?_eq_some_iff.mp found
      rw [drop_back] at text
      refine ⟨_, closing?_eq_some_iff.mpr ⟨inner, after, (drop_back ..).trans text, balanced, rfl⟩, ?_⟩
      have stop (part : Program) :
          ((front.size + part.size + distance : Nat) + inner.length + 1 : Int) =
            (front.size + part.size + (distance + inner.length + 1) : Nat) := by
        omega
      rw [stop middle, stop other]
      exact .back _

end Corresponds

end Program

/--
Two runs end alike around an exchanged part if both complete, or if they fail at the same byte beside
that part for one cause, which gives both reports their kind and their text.
-/
inductive Ending.Beside (front middle other back : Program) : Ending → Ending → Prop where
  | completed : Beside front middle other back .completed .completed
  | failed {place otherPlace : Int} {cause : Fault}
      (places : Program.Beside front middle other back place otherPlace) :
      Beside front middle other back (.failed (.fault place cause)) (.failed (.fault otherPlace cause))

namespace Machine

/-- The texts of two unlimited machines differ in a part, and the machines track each other around it. -/
structure Exchanged (front middle other back : Program) (machine twin : Machine) : Prop where
  text : machine.program = front ++ middle ++ back
  twinText : twin.program = front ++ other ++ back
  unlimited : machine.stepLimit = none
  tracks : machine.Tracks (Program.Corresponds front middle other) twin

variable {front middle other back : Program}

theorem exchanged_start {limits : Limits} (unlimited : limits.stepLimit = none)
    (input : List UInt8) :
    Exchanged front middle other back (start (front ++ middle ++ back) limits input).announce
      (start (front ++ other ++ back) limits input).announce where
  text := rfl
  twinText := rfl
  unlimited := stepLimit_start unlimited (front ++ middle ++ back) input
  tracks := {
    place := .front (Nat.zero_le _)
    frames := .nil
    capacity := rfl
    stepLimit := rfl
    written := rfl
    store := rfl }

/-- A part that only counts is passed, and only the current cell has grown by its net count. -/
theorem exists_reaches_of_counts {machine : Machine} (unlimited : machine.stepLimit = none)
    (text : machine.program = front ++ middle ++ back) (place : machine.ip = front.size)
    (counts : ∀ command ∈ middle.commands, command.counts = true) :
    ∃ tape, machine.tape.Adjusted tape 0 (fun distance =>
        if distance = 0 then middle.netCount else 0) ∧
      machine.Reaches { machine with
        tape
        ip := (front.size + middle.size : Nat)
        steps := machine.steps + middle.commands.length } := by
  have nothing : front.toList.drop front.size = [] := List.drop_of_length_le (Nat.le_refl _)
  have here : machine.program.toList.drop front.size = middle.toList ++ back.toList := by
    rw [text, Program.drop_front (Nat.le_refl _), nothing, List.nil_append]
  obtain ⟨tape, adjusted, reached⟩ := exists_reaches_of_walks unlimited place here
    (fun command member => Command.walks_of_counts (counts command member))
    (Tape.Allows.of_counts machine.tape counts)
  refine ⟨tape, ?_, reached⟩
  rw [← Program.commands, Walk.displacement_of_counts counts,
    funext (Walk.change_of_counts counts)] at adjusted
  exact adjusted

namespace Exchanged

variable {machine twin : Machine}

theorem twinUnlimited (exchanged : Exchanged front middle other back machine twin) :
    twin.stepLimit = none :=
  exchanged.tracks.stepLimit.symm.trans exchanged.unlimited

/-- Both machines can pass the byte at which they stand. -/
theorem passed (exchanged : Exchanged front middle other back machine twin)
    (beside : Program.Beside front middle other back machine.ip twin.ip) :
    Exchanged front middle other back machine.passed twin.passed :=
  { exchanged with tracks := { exchanged.tracks with place := beside.next } }

theorem counted (exchanged : Exchanged front middle other back machine twin)
    (beside : Program.Beside front middle other back machine.ip twin.ip) :
    Exchanged front middle other back machine.counted twin.counted :=
  have passed := exchanged.passed beside
  { passed with tracks := { passed.tracks with } }

theorem closesAlike (exchanged : Exchanged front middle other back machine twin)
    (alike : middle.CountAlike other) :
    machine.ClosesAlike (Program.Corresponds front middle other) twin := by
  have place := exchanged.tracks.place
  rw [ClosesAlike, exchanged.text, exchanged.twinText]
  cases found : Program.closing? (front ++ middle ++ back) machine.ip with
  | some resume =>
      obtain ⟨twinResume, twinFound, places⟩ := place.exists_closing? alike found
      exact .inr ⟨resume, twinResume, rfl, twinFound, places⟩
  | none =>
      cases twinFound : Program.closing? (front ++ other ++ back) twin.ip with
      | none => exact .inl ⟨rfl, rfl⟩
      | some twinResume =>
          obtain ⟨resume, again, -⟩ := place.symm.exists_closing? alike.symm twinFound
          rw [found] at again
          contradiction

/-- Both machines come out of their parts with the same tape. -/
theorem cross (exchanged : Exchanged front middle other back machine twin)
    (alike : middle.CountAlike other) (place : machine.ip = front.size)
    (twinPlace : twin.ip = front.size) :
    ∃ next twinNext, machine.Reaches next ∧ twin.Reaches twinNext ∧
      Exchanged front middle other back next twinNext ∧
      next.ip = (front.size + middle.size : Nat) ∧ twinNext.ip = (front.size + other.size : Nat) := by
  obtain ⟨tape, adjusted, reached⟩ :=
    exists_reaches_of_counts exchanged.unlimited exchanged.text place alike.counts
  obtain ⟨twinTape, twinAdjusted, twinReached⟩ :=
    exists_reaches_of_counts exchanged.twinUnlimited exchanged.twinText twinPlace alike.otherCounts
  have store := exchanged.tracks.store
  have before : machine.tape = twin.tape := congrArg Store.tape store
  have after : tape = twinTape := by
    refine adjusted.unique (before ▸ twinAdjusted) ?_
    intro distance
    split
    · exact Byte.ofInt_eq_of_emod_eq alike.same
    · rfl
  refine ⟨_, _, reached, twinReached, ?_, rfl, rfl⟩
  refine { exchanged with tracks := { exchanged.tracks with place := .back 0, store := ?_ } }
  show Store.mk tape machine.input machine.output = Store.mk twinTape twin.input twin.output
  rw [after, show machine.input = twin.input from congrArg Store.input store,
    show machine.output = twin.output from congrArg Store.output store]

/-- Behind the exchanged part both machines stand at the same byte, or nothing is left to read. -/
theorem beside_or_past (exchanged : Exchanged front middle other back machine twin) (distance : Nat)
    (place : machine.ip = (front.size + middle.size + distance : Nat))
    (twinPlace : twin.ip = (front.size + other.size + distance : Nat)) :
    Program.Beside front middle other back machine.ip twin.ip ∨
      machine.program.size ≤ machine.ip ∧ twin.program.size ≤ twin.ip := by
  rw [place, twinPlace, exchanged.text, exchanged.twinText]
  by_cases inside : distance < back.size
  · exact .inl (.back inside)
  · simp only [Array.size_append]
    omega

/--
Both machines come to the same byte beside the exchanged part, or to the end of their texts. From
the beginning of that part they first have to cross it.
-/
theorem settle (exchanged : Exchanged front middle other back machine twin)
    (alike : middle.CountAlike other) :
    ∃ next twinNext, machine.Reaches next ∧ twin.Reaches twinNext ∧
      Exchanged front middle other back next twinNext ∧
      (Program.Beside front middle other back next.ip twinNext.ip ∨
        next.program.size ≤ next.ip ∧ twinNext.program.size ≤ twinNext.ip) := by
  have place := exchanged.tracks.place
  generalize here : machine.ip = position, there : twin.ip = twinPosition at place
  cases place with
  | @front offset within =>
      by_cases inside : offset < front.size
      · refine ⟨machine, twin, .refl machine, .refl twin, exchanged, .inl ?_⟩
        rw [here, there]
        exact .front inside
      · obtain rfl : offset = front.size := by omega
        obtain ⟨next, twinNext, reached, twinReached, after, stop, twinStop⟩ :=
          exchanged.cross alike here there
        exact ⟨next, twinNext, reached, twinReached, after, after.beside_or_past 0 stop twinStop⟩
  | back distance =>
      exact ⟨machine, twin, .refl machine, .refl twin, exchanged,
        exchanged.beside_or_past distance here there⟩

/-- At the same byte both machines move, or they fail for one cause. -/
theorem step (exchanged : Exchanged front middle other back machine twin)
    (alike : middle.CountAlike other)
    (beside : Program.Beside front middle other back machine.ip twin.ip) :
    (∃ next twinNext, machine.step = (.moved, next) ∧ twin.step = (.moved, twinNext) ∧
      Exchanged front middle other back next twinNext) ∨
    ∃ cause next twinNext, machine.step = (.failed (.fault machine.ip cause), next) ∧
      twin.step = (.failed (.fault twin.ip cause), twinNext) ∧
      Exchanged front middle other back next twinNext := by
  obtain ⟨byte, found, twinFound⟩ := beside.exists_byteAt?
  rw [← exchanged.text] at found
  rw [← exchanged.twinText] at twinFound
  cases decoded : Command.ofByte? byte with
  | none =>
      exact .inl ⟨_, _, step_comment found decoded, step_comment twinFound decoded,
        exchanged.passed beside⟩
  | some command =>
      have counted := exchanged.counted beside
      have here := Program.commandAt?_eq_some.mpr ⟨byte, found, decoded⟩
      have there := Program.commandAt?_eq_some.mpr ⟨byte, twinFound, decoded⟩
      rcases counted.tracks.step (counted.closesAlike alike) here there
        (spentLimit?_of_unlimited exchanged.unlimited)
        (spentLimit?_of_unlimited exchanged.twinUnlimited) with moved | failed
      · obtain ⟨next, twinNext, moved, twinMoved, -, -, tracks⟩ := moved
        obtain ⟨text, limit, -⟩ := step_frame moved
        exact .inl ⟨next, twinNext, moved, twinMoved, text.trans exchanged.text,
          (step_frame twinMoved).1.trans exchanged.twinText, limit.trans exchanged.unlimited, tracks⟩
      · obtain ⟨cause, failed, twinFailed⟩ := failed
        exact .inr ⟨cause, _, _, failed, twinFailed, counted⟩

/-- If one of the two machines ends, so does the other, and they end alike. -/
theorem exists_ends (exchanged : Exchanged front middle other back machine twin)
    (alike : middle.CountAlike other) {ending : Ending} {last : Machine}
    (ended : machine.Ends ending last) :
    ∃ twinEnding twinLast, twin.Ends twinEnding twinLast ∧
      ending.Beside front middle other back twinEnding ∧
      Exchanged front middle other back last twinLast := by
  refine Ends.of_simulation (Exchanged front middle other back) (Exchanged front middle other back)
    (Ending.Beside front middle other back) ?_ exchanged ended
  intro here there exchanged
  -- The part of the first text may be empty, so it is the byte behind it that gives the move.
  obtain ⟨next, twinNext, reached, twinReached, settled, place⟩ := exchanged.settle alike
  rcases place with beside | ⟨past, twinPast⟩
  · rcases settled.step alike beside with moved | failed
    · obtain ⟨later, twinLater, moved, twinMoved, after⟩ := moved
      exact .inl ⟨later, twinLater, .of_reaches reached (.of_step moved),
        twinReached.trans (.of_step twinMoved), after⟩
    · obtain ⟨cause, final, twinFinal, failed, twinFailed, after⟩ := failed
      exact .inr ⟨.failed _, .failed _, final, twinFinal, ends_iff.mpr ⟨_, reached, failed⟩,
        ends_iff.mpr ⟨_, twinReached, twinFailed⟩, .failed beside, after⟩
  · exact .inr ⟨.completed, .completed, next, twinNext,
      ends_iff.mpr ⟨next, reached, step_of_size_le past⟩,
      ends_iff.mpr ⟨twinNext, twinReached, step_of_size_le twinPast⟩, .completed, settled⟩

end Exchanged

/-- A run ends if the run of the text with the other part does, and both end alike. -/
theorem Finishes.exists_beside (alike : middle.CountAlike other) {limits : Limits}
    (unlimited : limits.stepLimit = none) {input : List UInt8} {ending : Ending} {last : Machine}
    (finished : (start (front ++ middle ++ back) limits input).Finishes ending last) :
    ∃ twinEnding twinLast,
      (start (front ++ other ++ back) limits input).Finishes twinEnding twinLast ∧
      ending.Beside front middle other back twinEnding ∧
      Exchanged front middle other back last twinLast := by
  obtain ⟨stopped, ended, rfl⟩ := finishes_iff.mp finished
  obtain ⟨twinEnding, twinStopped, twinEnded, same, exchanged⟩ :=
    (exchanged_start unlimited input).exists_ends alike ended
  refine ⟨twinEnding, _, finishes_iff.mpr ⟨twinStopped, twinEnded, rfl⟩, same, ?_⟩
  rw [close_eq, close_eq twinEnding]
  exact { exchanged with tracks := { exchanged.tracks with } }

end Machine

open Machine in
/--
A part of a text that only counts can be exchanged for another one with the same net count modulo
256. Without a step limit both texts have runs that end, or neither has. They end alike, with the same
tape, output and unread input, and with as many open loops.
-/
theorem run_unchanged_by_equal_counting (front middle other back : Program)
    (alike : middle.CountAlike other) (limits : Limits) (unlimited : limits.stepLimit = none)
    (input : List UInt8) :
    ((∃ ending last, (start (front ++ middle ++ back) limits input).Finishes ending last) ↔
      ∃ ending last, (start (front ++ other ++ back) limits input).Finishes ending last) ∧
    ∀ ending last twinEnding twinLast,
      (start (front ++ middle ++ back) limits input).Finishes ending last →
      (start (front ++ other ++ back) limits input).Finishes twinEnding twinLast →
        ending.Beside front middle other back twinEnding ∧ last.tape = twinLast.tape ∧
        last.output = twinLast.output ∧ last.input = twinLast.input ∧
        last.loops.depth = twinLast.loops.depth := by
  refine ⟨⟨?_, ?_⟩, ?_⟩
  · rintro ⟨ending, last, finished⟩
    obtain ⟨twinEnding, twinLast, twinFinished, -⟩ := finished.exists_beside alike unlimited
    exact ⟨twinEnding, twinLast, twinFinished⟩
  · rintro ⟨ending, last, finished⟩
    obtain ⟨twinEnding, twinLast, twinFinished, -⟩ := finished.exists_beside alike.symm unlimited
    exact ⟨twinEnding, twinLast, twinFinished⟩
  · intro ending last twinEnding twinLast finished twinFinished
    obtain ⟨_, _, again, same, exchanged⟩ := finished.exists_beside alike unlimited
    obtain ⟨rfl, rfl⟩ := again.unique twinFinished
    have store := exchanged.tracks.store
    exact ⟨same, congrArg Store.tape store, congrArg Store.output store, congrArg Store.input store,
      exchanged.tracks.frames.length_eq⟩

open Machine in
/--
The part is the body of a loop that runs twice. The two decrements and the increment take one as a
single decrement does, and the failing command moves from offset seven to five.
-/
theorem run_unchanged_by_equal_counting_loop_body :
    Program.CountAlike #[43, 45, 45] #[45] ∧
    ∃ last twinLast,
      (start (#[43, 43, 91] ++ #[43, 45, 45] ++ #[93, 60]) ⟨1, 1, none, by decide, by decide⟩
        []).Finishes (.failed (.fault 7 (.offTape .left))) last ∧
      (start (#[43, 43, 91] ++ #[45] ++ #[93, 60]) ⟨1, 1, none, by decide, by decide⟩
        []).Finishes (.failed (.fault 5 (.offTape .left))) twinLast ∧
      last.tape = twinLast.tape ∧ last.loops.depth = twinLast.loops.depth := by
  have alike : Program.CountAlike #[43, 45, 45] #[45] := ⟨by decide, by decide, by decide⟩
  have finished : ∃ last, (start (#[43, 43, 91] ++ #[43, 45, 45] ++ #[93, 60])
      ⟨1, 1, none, by decide, by decide⟩ []).Finishes (.failed (.fault 7 (.offTape .left))) last :=
    ⟨_, 12, rfl⟩
  have twinFinished : ∃ last, (start (#[43, 43, 91] ++ #[45] ++ #[93, 60])
      ⟨1, 1, none, by decide, by decide⟩ []).Finishes (.failed (.fault 5 (.offTape .left))) last :=
    ⟨_, 12, rfl⟩
  obtain ⟨last, finished⟩ := finished
  obtain ⟨twinLast, twinFinished⟩ := twinFinished
  obtain ⟨-, tape, -, -, depth⟩ :=
    (run_unchanged_by_equal_counting _ _ _ _ alike _ rfl _).2 _ _ _ _ finished twinFinished
  exact ⟨alike, last, twinLast, finished, twinFinished, tape, depth⟩

end Brainfuck
