/-
This file maps bytes to the first 256 characters and back.
-/

namespace Brainfuck.Latin1

/-- The character of a byte has the same number. -/
def charOf (byte : UInt8) : Char := Char.ofNat byte.toNat

def decode (bytes : List UInt8) : List Char := bytes.map charOf

/-- These are the characters that one byte can hold. -/
def fits (c : Char) : Bool := c.toNat < 256

def byteOf (c : Char) : UInt8 := UInt8.ofNat c.toNat

/-- This is the first maximal run of characters that no byte can hold. -/
structure Unencodable where
  position : Nat
  first : Char
  count : Nat

/-- The number of a character has at least the given count of digits. -/
def hexadecimal (width : Nat) (c : Char) : List Char :=
  List.leftpad width '0' (Nat.toDigits 16 c.toNat)

/-- A character beyond the first plane needs the longer escape. -/
def escape (c : Char) : List Char :=
  if c.toNat < 0x10000 then '\\' :: 'u' :: hexadecimal 4 c
  else '\\' :: 'U' :: hexadecimal 8 c

def Unencodable.message (run : Unencodable) : String :=
  if run.count = 1 then
    "'latin-1' codec can't encode character '" ++ String.ofList (escape run.first) ++
      "' in position " ++ toString run.position ++ ": ordinal not in range(256)"
  else
    "'latin-1' codec can't encode characters in position " ++ toString run.position ++ "-" ++
      toString (run.position + run.count - 1) ++ ": ordinal not in range(256)"

/-- The encoding fails at the first character that does not fit. -/
def encode (text : List Char) : Except Unencodable (List UInt8) :=
  match text.dropWhile fits with
  | [] => .ok (text.map byteOf)
  | first :: rest => .error
      { position := (text.takeWhile fits).length
        first
        count := (rest.takeWhile (fun c => !fits c)).length + 1 }

theorem charOf_toNat (byte : UInt8) : (charOf byte).toNat = byte.toNat := by
  have small : byte.toNat < 256 := byte.toNat_lt
  have valid : byte.toNat.isValidChar := Or.inl (by omega)
  rw [charOf, Char.ofNat, dif_pos valid]
  rfl

@[simp] theorem byteOf_charOf (byte : UInt8) : byteOf (charOf byte) = byte := by
  rw [byteOf, charOf_toNat, UInt8.ofNat_toNat]

theorem charOf_injective {first second : UInt8} (same : charOf first = charOf second) :
    first = second := by
  rw [← byteOf_charOf first, ← byteOf_charOf second, same]

end Brainfuck.Latin1
