/-
This file says which integers can be used as an index.
-/

namespace Brainfuck.Index

/-- This is half of the range of a word of 64 bits. -/
def bound : Int := 9223372036854775808

/-- An index is a signed word. -/
def fits (value : Int) : Bool := -bound ≤ value && value < bound

/-- This integer is too large or too small for an index. -/
structure Overflow where
  value : Int

def Overflow.message (_ : Overflow) : String := "cannot fit 'int' into an index-sized integer"

theorem fits_iff (value : Int) : fits value = true ↔ -bound ≤ value ∧ value < bound := by
  simp [fits]

end Brainfuck.Index
