/-
This file defines the bounded stack of open loops.
-/

namespace Brainfuck

/-- A frame remembers where the body of a loop begins and where its bracket stands. -/
structure Frame where
  start : Int
  origin : Int
  deriving DecidableEq

/-- The innermost loop is the first frame of the list. -/
structure LoopStack where
  capacity : Nat
  frames : List Frame
  within : frames.length ≤ capacity

namespace LoopStack

def defaultCapacity : Nat := 1000

def empty (capacity : Nat) : LoopStack := ⟨capacity, [], Nat.zero_le _⟩

def depth (stack : LoopStack) : Nat := stack.frames.length

def full (stack : LoopStack) : Bool := stack.capacity ≤ stack.depth

def push? (stack : LoopStack) (frame : Frame) : Option LoopStack :=
  if room : stack.frames.length < stack.capacity then
    some ⟨stack.capacity, frame :: stack.frames, room⟩
  else none

def peek? (stack : LoopStack) : Option Frame := stack.frames.head?

/-- The empty stack stays empty. -/
def pop (stack : LoopStack) : LoopStack :=
  ⟨stack.capacity, stack.frames.tail, Nat.le_trans (by simp) stack.within⟩

def clear (stack : LoopStack) : LoopStack := empty stack.capacity

inductive Request where
  | push (frame : Frame)
  | peek
  | pop
  | clear

inductive Reply where
  | nothing
  | frame (frame : Option Frame)

/-- The stack had no room for this frame. -/
structure Overflow where
  frame : Frame

def Overflow.message (overflow : Overflow) : String :=
  "LoopFrame(start=" ++ toString overflow.frame.start ++ ", origin=" ++
    toString overflow.frame.origin ++ ")"

def perform : Request → LoopStack → Except Overflow Reply × LoopStack
  | .push frame, stack =>
      match stack.push? frame with
      | some next => (.ok .nothing, next)
      | none => (.error ⟨frame⟩, stack)
  | .peek, stack => (.ok (.frame stack.peek?), stack)
  | .pop, stack => (.ok (.frame stack.peek?), stack.pop)
  | .clear, stack => (.ok .nothing, stack.clear)

theorem push?_eq_some {stack next : LoopStack} {frame : Frame} :
    stack.push? frame = some next ↔
      next.capacity = stack.capacity ∧ next.frames = frame :: stack.frames := by
  constructor
  · intro pushed
    unfold push? at pushed
    split at pushed
    · cases pushed
      exact ⟨rfl, rfl⟩
    · contradiction
  · rintro ⟨capacity, frames⟩
    have bound := next.within
    have room : stack.frames.length < stack.capacity := by
      rw [capacity, frames] at bound
      exact bound
    rw [push?, dif_pos room]
    cases next
    simp_all

theorem push?_eq_none {stack : LoopStack} {frame : Frame} :
    stack.push? frame = none ↔ stack.full = true := by
  unfold push? full depth
  split <;> simp <;> omega

/-- A stack that took a frame had room for it. -/
theorem full_eq_false_of_pushed {stack next : LoopStack} {frame : Frame}
    (kept : next.capacity = stack.capacity) (pushed : next.frames = frame :: stack.frames) :
    stack.full = false := by
  have taken := push?_eq_some.mpr ⟨kept, pushed⟩
  cases full : stack.full with
  | false => rfl
  | true =>
      rw [push?_eq_none.mpr full] at taken
      contradiction

theorem full_iff {stack : LoopStack} :
    stack.full = true ↔ stack.frames.length = stack.capacity := by
  have bound := stack.within
  unfold full depth
  rw [decide_eq_true_iff]
  omega

theorem peek?_eq_none {stack : LoopStack} : stack.peek? = none ↔ stack.frames = [] := by
  simp [peek?]

@[simp] theorem capacity_pop (stack : LoopStack) : stack.pop.capacity = stack.capacity := rfl

@[simp] theorem frames_pop (stack : LoopStack) : stack.pop.frames = stack.frames.tail := rfl

@[simp] theorem capacity_clear (stack : LoopStack) : stack.clear.capacity = stack.capacity := rfl

@[simp] theorem frames_clear (stack : LoopStack) : stack.clear.frames = [] := rfl

end LoopStack

end Brainfuck
