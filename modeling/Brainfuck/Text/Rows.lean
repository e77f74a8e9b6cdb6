/-
This file lays characters out in rows.
-/

namespace Brainfuck.Rows

/-- Only the newline character ends a row. -/
def split (text : List Char) : List (List Char) := text.splitOn '\n'

/-- A newline stands between two rows and not after the last one. -/
def join (rows : List (List Char)) : List Char := List.intercalate ['\n'] rows

def decimal (value : Nat) : List Char := Nat.toDigits 10 value

/-- The number stands at the right end of its column. -/
def column (width value : Nat) : List Char := List.leftpad width ' ' (decimal value)

end Brainfuck.Rows
