/-
This file proves that the pass over a text pairs its brackets by nesting.
-/

import Brainfuck.Brackets
import Mathlib.Data.List.Sort

namespace Brainfuck

namespace Pairing

/-- This is the state of the pass just before the offset. -/
def before (program : Program) (offset : Nat) : Pairing := ofBytes (program.toList.take offset)

/-- One byte of the text changes the state of the pass in one of these ways. -/
inductive Passing (program : Program) (offset : Nat) : Pairing → Prop where
  | opening (found : program.commandAt? offset = some .loopOpen) :
      Passing program offset
        { before program offset with opened := offset :: (before program offset).opened }
  | closing {origin : Nat} {rest : List Nat} (found : program.commandAt? offset = some .loopClose)
      (innermost : (before program offset).opened = origin :: rest) :
      Passing program offset
        { before program offset with
          pairs := (origin, offset) :: (before program offset).pairs, opened := rest }
  | stray (found : program.commandAt? offset = some .loopClose)
      (alone : (before program offset).opened = []) :
      Passing program offset
        { before program offset with stray := offset :: (before program offset).stray }
  | other (notOpen : program.commandAt? offset ≠ some .loopOpen)
      (notClose : program.commandAt? offset ≠ some .loopClose) :
      Passing program offset (before program offset)

theorem before_zero (program : Program) : before program 0 = empty := rfl

theorem before_size (program : Program) : before program program.size = ofProgram program := by
  rw [before, ofProgram, ← Array.length_toList, List.take_length]

theorem passing_before (program : Program) (offset : Nat) :
    Passing program offset (before program (offset + 1)) := by
  have decoded := program.commandAt?_natCast offset
  have grown : before program (offset + 1) =
      ofBytes (program.toList.take offset ++ program[offset]?.toList) := by
    rw [before, List.take_add_one, Array.getElem?_toList]
  rw [grown]
  cases found : program[offset]? with
  | none =>
      rw [found] at decoded
      rw [Option.toList_none, List.append_nil]
      exact .other (by simp [decoded]) (by simp [decoded])
  | some byte =>
      rw [found, Option.bind_some] at decoded
      have inside : offset < program.size := (Array.getElem?_eq_some_iff.mp found).1
      have length : (program.toList.take offset).length = offset := by
        rw [List.length_take, Array.length_toList]
        omega
      rw [Option.toList_some, ofBytes_append_singleton, length, read]
      split
      · rename_i isOpen
        exact .opening (decoded.trans isOpen)
      · rename_i isClose
        split
        · rename_i alone
          exact .stray (decoded.trans isClose) alone
        · rename_i innermost
          exact .closing (decoded.trans isClose) innermost
      · rename_i notOpen notClose
        exact .other (by rw [decoded]; exact notOpen) (by rw [decoded]; exact notClose)

/-- The brackets below an open one were open when it was read. -/
theorem opened_of_suffix {program : Program} {offset origin : Nat} {rest : List Nat}
    (nested : origin :: rest <:+ (before program offset).opened) :
    origin < offset ∧ program.commandAt? origin = some .loopOpen ∧
      (before program origin).opened = rest := by
  induction offset with
  | zero => simp [before_zero, empty] at nested
  | succ offset ih =>
      have passed := passing_before program offset
      generalize before program (offset + 1) = later at passed nested
      have earlier (within : origin :: rest <:+ (before program offset).opened) :
          origin < offset + 1 ∧ program.commandAt? origin = some .loopOpen ∧
            (before program origin).opened = rest := by
        obtain ⟨less, found, same⟩ := ih within
        exact ⟨Nat.lt_succ_of_lt less, found, same⟩
      cases passed with
      | opening found =>
          rcases List.suffix_cons_iff.mp nested with whole | within
          · cases whole
            exact ⟨Nat.lt_succ_self _, found, rfl⟩
          · exact earlier within
      | closing found innermost =>
          apply earlier
          rw [innermost]
          exact nested.trans (List.suffix_cons _ _)
      | stray | other => exact earlier nested

theorem mem_opened {program : Program} {offset origin : Nat}
    (member : origin ∈ (before program offset).opened) :
    origin < offset ∧ program.commandAt? origin = some .loopOpen := by
  obtain ⟨front, rest, split⟩ := List.append_of_mem member
  have nested : origin :: rest <:+ (before program offset).opened := ⟨front, split.symm⟩
  obtain ⟨less, found, -⟩ := opened_of_suffix nested
  exact ⟨less, found⟩

/-- The innermost open bracket is the one that was read last. -/
theorem opened_sorted (program : Program) (offset : Nat) :
    (before program offset).opened.Pairwise (· > ·) := by
  induction offset with
  | zero => exact List.Pairwise.nil
  | succ offset ih =>
      have passed := passing_before program offset
      generalize before program (offset + 1) = later at passed
      cases passed with
      | opening found => exact List.pairwise_cons.mpr ⟨fun _ member => (mem_opened member).1, ih⟩
      | closing found innermost =>
          rw [innermost] at ih
          exact ih.of_cons
      | stray | other => exact ih

/-- A bracket is paired with the innermost one that is open just before it. -/
theorem mem_pairs_iff {program : Program} {offset origin closer : Nat} :
    (origin, closer) ∈ (before program offset).pairs ↔
      closer < offset ∧ program.commandAt? closer = some .loopClose ∧
        (before program closer).opened.head? = some origin := by
  induction offset with
  | zero => simp [before_zero, empty]
  | succ offset ih =>
      have passed := passing_before program offset
      generalize before program (offset + 1) = later at passed
      cases passed <;> grind

/-- A closing bracket is stray if no bracket is open just before it. -/
theorem mem_stray_iff {program : Program} {offset closer : Nat} :
    closer ∈ (before program offset).stray ↔
      closer < offset ∧ program.commandAt? closer = some .loopClose ∧
        (before program closer).opened = [] := by
  induction offset with
  | zero => simp [before_zero, empty]
  | succ offset ih =>
      have passed := passing_before program offset
      generalize before program (offset + 1) = later at passed
      cases passed <;> grind

theorem lt_of_mem_pairs {program : Program} {offset origin closer : Nat}
    (paired : (origin, closer) ∈ (before program offset).pairs) : origin < closer := by
  obtain ⟨-, -, innermost⟩ := mem_pairs_iff.mp paired
  exact (mem_opened (List.mem_of_mem_head? innermost)).1

/-- The pass never takes a pair back. -/
theorem mem_pairs_mono {program : Program} {first second origin closer : Nat} (le : first ≤ second)
    (paired : (origin, closer) ∈ (before program first).pairs) :
    (origin, closer) ∈ (before program second).pairs := by
  obtain ⟨less, found, innermost⟩ := mem_pairs_iff.mp paired
  exact mem_pairs_iff.mpr ⟨Nat.lt_of_lt_of_le less le, found, innermost⟩

/-- An opening bracket is open until it has a partner. -/
theorem mem_opened_iff {program : Program} {offset origin : Nat} :
    origin ∈ (before program offset).opened ↔
      origin < offset ∧ program.commandAt? origin = some .loopOpen ∧
        ∀ closer, (origin, closer) ∉ (before program offset).pairs := by
  induction offset with
  | zero => simp [before_zero, empty]
  | succ offset ih =>
      have sorted := opened_sorted program offset
      have earlier {origin closer : Nat} (paired : (origin, closer) ∈ (before program offset).pairs) :
          origin < offset :=
        Nat.lt_trans (lt_of_mem_pairs paired) (mem_pairs_iff.mp paired).1
      have passed := passing_before program offset
      generalize before program (offset + 1) = later at passed
      cases passed with
      | opening found => grind
      | closing found innermost =>
          rw [innermost, List.pairwise_cons] at sorted
          grind
      | stray | other => grind

/-- A bracket has at most one partner. -/
theorem closer_unique {program : Program} {offset origin first second : Nat}
    (left : (origin, first) ∈ (before program offset).pairs)
    (right : (origin, second) ∈ (before program offset).pairs) : first = second := by
  have notBefore {near far : Nat} (one : (origin, near) ∈ (before program offset).pairs)
      (two : (origin, far) ∈ (before program offset).pairs) : ¬ near < far := by
    intro less
    obtain ⟨-, isClose, innermost⟩ := mem_pairs_iff.mp one
    obtain ⟨-, -, again⟩ := mem_pairs_iff.mp two
    have paired : (origin, near) ∈ (before program far).pairs :=
      mem_pairs_iff.mpr ⟨less, isClose, innermost⟩
    have stillOpen := mem_opened_iff.mp (List.mem_of_mem_head? again)
    exact stillOpen.2.2 near paired
  have := notBefore left right
  have := notBefore right left
  omega

theorem find?_of_unique {pairs : List (Nat × Nat)} {test : Nat × Nat → Bool} {pair : Nat × Nat}
    (member : pair ∈ pairs) (holds : test pair = true)
    (unique : ∀ other ∈ pairs, test other = true → other = pair) : pairs.find? test = some pair := by
  cases found : pairs.find? test with
  | none => exact absurd holds (List.find?_eq_none.mp found pair member)
  | some other =>
      rw [unique other (List.mem_of_find?_eq_some found) (List.find?_some found)]

theorem closer?_eq_some {program : Program} {origin closer : Nat} :
    (ofProgram program).closer? origin = some closer ↔
      (origin, closer) ∈ (ofProgram program).pairs := by
  rw [← before_size, closer?, Option.map_eq_some_iff]
  constructor
  · rintro ⟨⟨first, second⟩, found, rfl⟩
    have same : first = origin := by simpa using List.find?_some found
    rw [← same]
    exact List.mem_of_find?_eq_some found
  · intro paired
    refine ⟨_, find?_of_unique paired (by simp) ?_, rfl⟩
    rintro ⟨first, second⟩ member same
    obtain rfl : first = origin := by simpa using same
    rw [closer_unique member paired]

theorem opener?_eq_some {program : Program} {origin closer : Nat} :
    (ofProgram program).opener? closer = some origin ↔
      (origin, closer) ∈ (ofProgram program).pairs := by
  rw [← before_size, opener?, Option.map_eq_some_iff]
  constructor
  · rintro ⟨⟨first, second⟩, found, rfl⟩
    have same : second = closer := by simpa using List.find?_some found
    rw [← same]
    exact List.mem_of_find?_eq_some found
  · intro paired
    refine ⟨_, find?_of_unique paired (by simp) ?_, rfl⟩
    rintro ⟨first, second⟩ member same
    obtain rfl : second = closer := by simpa using same
    obtain ⟨-, -, one⟩ := mem_pairs_iff.mp member
    obtain ⟨-, -, two⟩ := mem_pairs_iff.mp paired
    rw [Option.some.inj (one.symm.trans two)]

theorem closer?_eq_none {program : Program} {origin : Nat} :
    (ofProgram program).closer? origin = none ↔
      ∀ closer, (origin, closer) ∉ (ofProgram program).pairs := by
  rw [Option.eq_none_iff_forall_ne_some]
  exact forall_congr' fun closer => not_congr closer?_eq_some

theorem before_succ_open {program : Program} {offset : Nat}
    (found : program.commandAt? offset = some .loopOpen) :
    before program (offset + 1) =
      { before program offset with opened := offset :: (before program offset).opened } := by
  have passed := passing_before program offset
  generalize before program (offset + 1) = later at passed
  cases passed <;> simp_all

theorem before_succ_close {program : Program} {offset origin : Nat} {rest : List Nat}
    (found : program.commandAt? offset = some .loopClose)
    (innermost : (before program offset).opened = origin :: rest) :
    before program (offset + 1) =
      { before program offset with
        pairs := (origin, offset) :: (before program offset).pairs, opened := rest } := by
  have passed := passing_before program offset
  generalize before program (offset + 1) = later at passed
  cases passed <;> simp_all

theorem before_succ_other (program : Program) (offset : Nat)
    (notOpen : program.commandAt? offset ≠ some .loopOpen)
    (notClose : program.commandAt? offset ≠ some .loopClose) :
    before program (offset + 1) = before program offset := by
  have passed := passing_before program offset
  generalize before program (offset + 1) = later at passed
  cases passed <;> simp_all

/-- An open bracket was open ever since it was read. -/
theorem opened_of_le {program : Program} {origin middle later : Nat} (less : origin < middle)
    (le : middle ≤ later) (member : origin ∈ (before program later).opened) :
    origin ∈ (before program middle).opened := by
  obtain ⟨-, found, alone⟩ := mem_opened_iff.mp member
  exact mem_opened_iff.mpr ⟨less, found, fun closer paired => alone closer (mem_pairs_mono le paired)⟩

theorem stray_of_le {program : Program} {first second : Nat} (le : first ≤ second)
    (matched : (before program second).stray = []) : (before program first).stray = [] := by
  rw [List.eq_nil_iff_forall_not_mem] at matched ⊢
  intro closer member
  obtain ⟨less, found, alone⟩ := mem_stray_iff.mp member
  exact matched closer (mem_stray_iff.mpr ⟨Nat.lt_of_lt_of_le less le, found, alone⟩)

/-- A whole loop leaves no bracket open and none without a partner. -/
theorem before_succ_closer {program : Program} {origin closer : Nat}
    (paired : (origin, closer) ∈ (ofProgram program).pairs)
    (matched : (before program origin).stray = []) :
    (before program (closer + 1)).opened = (before program origin).opened ∧
      (before program (closer + 1)).stray = [] := by
  rw [← before_size] at paired
  obtain ⟨-, isClose, innermost⟩ := mem_pairs_iff.mp paired
  obtain ⟨rest, opened⟩ := List.head?_eq_some_iff.mp innermost
  have nested : origin :: rest <:+ (before program closer).opened := opened ▸ List.suffix_rfl
  obtain ⟨less, isOpen, below⟩ := opened_of_suffix nested
  rw [before_succ_close isClose opened]
  refine ⟨below.symm, List.eq_nil_iff_forall_not_mem.mpr fun inner member => ?_⟩
  obtain ⟨within, found, alone⟩ := mem_stray_iff.mp member
  rcases Nat.lt_trichotomy inner origin with earlier | same | later
  · have early : inner ∈ (before program origin).stray := mem_stray_iff.mpr ⟨earlier, found, alone⟩
    simp [matched] at early
  · subst same
    simp [isOpen] at found
  · have still := opened_of_le later (Nat.le_of_lt within) (List.mem_of_mem_head? innermost)
    simp [alone] at still

/-- The scan keeps the height of the brackets that are open above the origin. -/
theorem closingFrom_eq {program : Program} {left offset depth origin : Nat} (above below : List Nat)
    (span : offset + left = program.size)
    (nested : (before program offset).opened = above ++ origin :: below)
    (height : above.length = depth) :
    program.closingFrom left offset depth =
      ((ofProgram program).closer? origin).map fun closer : Nat => (closer : Int) + 1 := by
  induction left generalizing offset depth above with
  | zero =>
      have whole : offset = program.size := by omega
      subst whole
      have member : origin ∈ (before program program.size).opened := by simp [nested]
      have alone := (mem_opened_iff.mp member).2.2
      rw [before_size] at alone
      rw [closer?_eq_none.mpr alone]
      rfl
  | succ left ih =>
      rw [Program.closingFrom, ← Int.natCast_succ]
      cases found : program.commandAt? offset with
      | none =>
          have same := before_succ_other program offset (by simp [found]) (by simp [found])
          exact ih above (by omega) (same ▸ nested) height
      | some command =>
          cases command with
          | loopOpen =>
              refine ih (offset :: above) (by omega) ?_ (by simp [height])
              rw [before_succ_open found, nested]
              rfl
          | loopClose =>
              cases above with
              | nil =>
                  have paired : (origin, offset) ∈ (before program (offset + 1)).pairs := by
                    rw [before_succ_close found nested]
                    exact List.mem_cons_self
                  have final := mem_pairs_mono (show offset + 1 ≤ program.size by omega) paired
                  rw [before_size] at final
                  rw [closer?_eq_some.mpr final, ← height]
                  rfl
              | cons top above =>
                  obtain ⟨depth, rfl⟩ : ∃ rest, depth = rest + 1 := ⟨above.length, by simp [← height]⟩
                  refine ih above (by omega) ?_ (by simpa using height)
                  rw [before_succ_close found nested]
                  rfl
          | right | left | increment | decrement | output | input =>
              have same := before_succ_other program offset (by simp [found]) (by simp [found])
              exact ih above (by omega) (same ▸ nested) height

/-- The forward scan finds the partner that the pass has recorded. -/
theorem closing?_eq {program : Program} {origin : Nat}
    (found : program.commandAt? origin = some .loopOpen) :
    program.closing? (origin + 1) =
      ((ofProgram program).closer? origin).map fun closer : Nat => (closer : Int) + 1 := by
  have inside := Program.lt_of_commandAt?_natCast found
  have left : ((program.size : Int) - (origin + 1)).toNat = program.size - (origin + 1) := by omega
  rw [Program.closing?, left, ← Int.natCast_succ]
  refine closingFrom_eq [] (before program origin).opened (by omega) ?_ rfl
  rw [before_succ_open found]
  rfl

/-- These opening brackets have no partner in the text. -/
def unmatchedOpens (program : Program) : List Nat :=
  (List.range program.size).filter fun offset =>
    program.commandAt? offset = some .loopOpen ∧ (ofProgram program).closer? offset = none

/-- The brackets that are open after the whole text are those without a partner. -/
theorem reverse_opened (program : Program) :
    (ofProgram program).opened.reverse = unmatchedOpens program := by
  have sorted := opened_sorted program program.size
  rw [before_size] at sorted
  refine List.Pairwise.eq_of_mem_iff (List.pairwise_reverse.mpr sorted)
    (List.pairwise_lt_range.filter _) fun origin => ?_
  have member := @mem_opened_iff program program.size origin
  rw [before_size] at member
  rw [List.mem_reverse, member, unmatchedOpens, List.mem_filter, List.mem_range, decide_eq_true_iff,
    closer?_eq_none]

/-- No bracket is stray exactly if every closing bracket has a partner. -/
theorem stray_eq_nil_iff (program : Program) :
    (ofProgram program).stray = [] ↔
      ∀ closer : Nat, program.commandAt? closer = some .loopClose →
        ∃ origin, (ofProgram program).opener? closer = some origin := by
  have partner (closer : Nat) (found : program.commandAt? closer = some .loopClose) :
      (∃ origin, (ofProgram program).opener? closer = some origin) ↔
        closer ∉ (ofProgram program).stray := by
    have inside := Program.lt_of_commandAt?_natCast found
    simp only [opener?_eq_some]
    rw [← before_size]
    simp only [mem_pairs_iff, mem_stray_iff, inside, found, true_and]
    cases (before program closer).opened <;> simp
  constructor
  · intro matched closer found
    exact (partner closer found).mpr (by simp [matched])
  · intro paired
    refine List.eq_nil_iff_forall_not_mem.mpr fun closer member => ?_
    have found := (mem_stray_iff.mp (before_size program ▸ member)).2.1
    exact (partner closer found).mp (paired closer found) member

end Pairing

end Brainfuck
