/-
This file defines the finite tape of byte cells and its cursor.
-/

namespace Brainfuck

/-- The cursor always stands on one of the cells. -/
structure Tape where
  cells : Array UInt8
  cursor : Nat
  inside : cursor < cells.size

namespace Tape

def defaultSize : Nat := 30000

def blank (size : Nat) (positive : 0 < size) : Tape where
  cells := Array.replicate size 0
  cursor := 0
  inside := by simpa using positive

def size (tape : Tape) : Nat := tape.cells.size

def read (tape : Tape) : UInt8 :=
  have inside := tape.inside
  tape.cells[tape.cursor]

def write (tape : Tape) (value : UInt8) : Tape where
  cells := tape.cells.set tape.cursor value tape.inside
  cursor := tape.cursor
  inside := by simpa using tape.inside

/-- A cell keeps the remainder modulo 256 of the number that is stored. -/
def store (tape : Tape) (value : Int) : Tape := tape.write (UInt8.ofInt value)

def increment (tape : Tape) : Tape := tape.write (tape.read + 1)

def decrement (tape : Tape) : Tape := tape.write (tape.read - 1)

/-- A move past an end of the tape leaves no tape to go on with. -/
def advance? (tape : Tape) : Option Tape :=
  if room : tape.cursor + 1 < tape.cells.size then
    some { cells := tape.cells, cursor := tape.cursor + 1, inside := room }
  else none

def retreat? (tape : Tape) : Option Tape :=
  if tape.cursor = 0 then none
  else some
    { cells := tape.cells
      cursor := tape.cursor - 1
      inside := Nat.lt_of_le_of_lt (Nat.sub_le _ _) tape.inside }

/-- These are the two ends of a tape. -/
inductive Edge where
  | left
  | right (last : Nat)
  deriving DecidableEq

def Edge.text : Edge → String
  | .left => "cursor moved left of cell 0"
  | .right last => "cursor moved right of the last cell (" ++ toString last ++ ")"

def reset (tape : Tape) : Tape :=
  blank tape.cells.size (Nat.zero_lt_of_lt tape.inside)

/-- A negative count leaves out that many cells at the right end. -/
def shown (tape : Tape) (count : Int) : Nat :=
  if count < 0 then (tape.size + count).toNat else min count.toNat tape.size

/-- The snapshot holds the leftmost cells. -/
def snapshot (tape : Tape) (count : Int) : List UInt8 :=
  (tape.cells.extract 0 (tape.shown count)).toList

@[simp] theorem size_blank (size : Nat) (positive : 0 < size) :
    (blank size positive).size = size := by
  simp [blank, Tape.size]

@[simp] theorem size_write (tape : Tape) (value : UInt8) :
    (tape.write value).size = tape.size := by
  simp [write, size]

@[simp] theorem cursor_write (tape : Tape) (value : UInt8) :
    (tape.write value).cursor = tape.cursor := rfl

@[simp] theorem read_write (tape : Tape) (value : UInt8) :
    (tape.write value).read = value := by
  simp [write, read]

@[simp] theorem write_read (tape : Tape) : tape.write tape.read = tape := by
  cases tape
  simp [write, read]

@[simp] theorem write_write (tape : Tape) (first second : UInt8) :
    (tape.write first).write second = tape.write second := by
  simp [write]

theorem advance?_eq_some {tape next : Tape} :
    tape.advance? = some next ↔
      next.cells = tape.cells ∧ next.cursor = tape.cursor + 1 := by
  constructor
  · intro moved
    unfold advance? at moved
    split at moved
    · cases moved
      exact ⟨rfl, rfl⟩
    · contradiction
  · rintro ⟨cells, cursor⟩
    have room : tape.cursor + 1 < tape.cells.size := by
      rw [← cells, ← cursor]
      exact next.inside
    rw [advance?, dif_pos room]
    cases next
    simp_all

theorem advance?_eq_none {tape : Tape} :
    tape.advance? = none ↔ tape.cursor + 1 = tape.size := by
  have inside := tape.inside
  unfold advance? size
  split
  · simp
    omega
  · simp
    omega

theorem retreat?_eq_some {tape next : Tape} :
    tape.retreat? = some next ↔
      next.cells = tape.cells ∧ next.cursor + 1 = tape.cursor := by
  constructor
  · intro moved
    unfold retreat? at moved
    split at moved
    · contradiction
    · cases moved
      exact ⟨rfl, by simp only; omega⟩
  · rintro ⟨cells, cursor⟩
    have away : tape.cursor ≠ 0 := by omega
    have before : next.cursor = tape.cursor - 1 := by omega
    rw [retreat?, if_neg away]
    cases next
    simp_all

theorem retreat?_eq_none {tape : Tape} : tape.retreat? = none ↔ tape.cursor = 0 := by
  unfold retreat?
  split <;> simp_all

@[simp] theorem size_reset (tape : Tape) : tape.reset.size = tape.size :=
  size_blank _ _

theorem shown_le_size (tape : Tape) (count : Int) : tape.shown count ≤ tape.size := by
  unfold shown
  split <;> omega

@[simp] theorem length_snapshot (tape : Tape) (count : Int) :
    (tape.snapshot count).length = tape.shown count := by
  have bound := tape.shown_le_size count
  simp only [size] at bound
  simp [snapshot, bound]

end Tape

end Brainfuck
