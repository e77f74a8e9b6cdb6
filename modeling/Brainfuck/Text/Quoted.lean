/-
This file writes a text between quotation marks.
-/

namespace Brainfuck.Quoted

def single : Char := '\x27'

def double : Char := '\x22'

/-- The double mark is used only when it avoids an escape. -/
def markFor (text : List Char) : Char :=
  if text.contains single && !text.contains double then double else single

def hexByte (c : Char) : List Char :=
  '\\' :: 'x' :: List.leftpad 2 '0' (Nat.toDigits 16 c.toNat)

/-- The mark, the backslash and the control characters are escaped. -/
def escape (mark c : Char) : List Char :=
  if c = mark ∨ c = '\\' then ['\\', c]
  else if c = '\n' then ['\\', 'n']
  else if c = '\r' then ['\\', 'r']
  else if c = '\t' then ['\\', 't']
  else if c.toNat < 32 ∨ c.toNat = 127 then hexByte c
  else [c]

def write (text : List Char) : List Char :=
  let mark := markFor text
  mark :: (text.flatMap (escape mark) ++ [mark])

end Brainfuck.Quoted
