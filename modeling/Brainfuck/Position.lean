/-
This file turns an offset into a line and a column.
-/

namespace Brainfuck

/-- Lines and columns are counted from one. -/
structure Position where
  line : Nat
  column : Nat
  deriving DecidableEq

namespace Position

def newline : UInt8 := 10

/-- An offset before or after the text is moved to the nearest end. -/
def clamp (size : Nat) (offset : Int) : Nat := min offset.toNat size

/-- The position after a text depends on the newlines in it and on what follows the last one. -/
def after (text : List UInt8) : Position where
  line := text.count newline + 1
  column := (text.reverse.takeWhile (· != newline)).length + 1

def locate (source : Array UInt8) (offset : Int) : Position :=
  after (source.toList.take (clamp source.size offset))

end Position

end Brainfuck
