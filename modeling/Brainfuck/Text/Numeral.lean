/-
This file reads signed decimal numerals.
-/

namespace Brainfuck.Numeral

/-- These six characters may stand around a numeral. -/
def isBlank (c : Char) : Bool :=
  c = ' ' || c = '\t' || c = '\n' || c = '\x0b' || c = '\x0c' || c = '\r'

def trim (text : List Char) : List Char :=
  ((text.dropWhile isBlank).reverse.dropWhile isBlank).reverse

/-- One underscore may stand between two digits. -/
def digits? : List Char → Option (List Char)
  | [] => none
  | [c] => if c.isDigit then some [c] else none
  | c :: '_' :: rest => if c.isDigit then (digits? rest).map (c :: ·) else none
  | c :: rest => if c.isDigit then (digits? rest).map (c :: ·) else none

def digitValue (c : Char) : Nat := c.toNat - '0'.toNat

def value (digits : List Char) : Nat :=
  digits.foldl (fun total c => 10 * total + digitValue c) 0

/-- A longer numeral is refused. -/
def maxDigits : Nat := 4300

def natural? (text : List Char) : Option Nat :=
  (digits? text).bind fun digits =>
    if digits.length ≤ maxDigits then some (value digits) else none

/-- At most one sign stands directly before the digits. -/
def integer? (text : List Char) : Option Int :=
  match trim text with
  | '-' :: rest => (natural? rest).map fun magnitude => -(magnitude : Int)
  | '+' :: rest => (natural? rest).map Int.ofNat
  | rest => (natural? rest).map Int.ofNat

end Brainfuck.Numeral
