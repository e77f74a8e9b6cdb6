/-
This file looks for a phrase in a text.
-/

namespace Brainfuck.Phrase

def occursIn (phrase : List Char) : List Char → Bool
  | [] => phrase.isEmpty
  | c :: rest => phrase.isPrefixOf (c :: rest) || occursIn phrase rest

/-- Capital letters of the text count as small ones. -/
def mentions (text phrase : String) : Bool :=
  occursIn phrase.toList (text.toList.map Char.toLower)

theorem occursIn_iff (phrase text : List Char) :
    occursIn phrase text = true ↔ phrase <:+: text := by
  induction text with
  | nil => simp [occursIn]
  | cons c rest ih => simp [occursIn, ih, List.infix_cons_iff]

end Brainfuck.Phrase
