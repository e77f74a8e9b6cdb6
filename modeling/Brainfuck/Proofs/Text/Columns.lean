/-
This file reads numbers back from the columns in which they are written.
-/

import Brainfuck.Text.Numeral
import Brainfuck.Text.Rows

namespace Brainfuck

/-- The decimal digits of a number have its value. -/
theorem Numeral.value_decimal (number : Nat) : value (Rows.decimal number) = number :=
  Nat.ofDigitChars_ten_toDigits

namespace Rows

/-- Blanks stand between two words, and any number of them separates no more than one does. -/
def words (text : List Char) : List (List Char) := (text.splitOn ' ').filter (· != [])

/-- A text gives numbers only if its words have digits and nothing else. -/
def numbers? (text : List Char) : Option (List Nat) :=
  (words text).mapM fun word =>
    if word.all Char.isDigit then some (Numeral.value word) else none

theorem isDigit_of_mem_decimal {value : Nat} {c : Char} (member : c ∈ decimal value) :
    c.isDigit = true :=
  Nat.isDigit_of_mem_toDigits (by decide) (by decide) member

/-- Only blanks and digits stand in the column of a number. -/
theorem notMem_column {c : Char} (visible : c ≠ ' ') (other : c.isDigit = false) (width value : Nat) :
    c ∉ column width value := by
  intro member
  rcases List.mem_append.mp member with blank | digit
  · exact visible (List.eq_of_mem_replicate blank)
  · rw [isDigit_of_mem_decimal digit] at other
    contradiction

theorem words_append_blank (first rest : List Char) :
    words (first ++ ' ' :: rest) = words first ++ words rest := by
  rw [words, List.splitOn_append_cons_self, List.filter_append]
  rfl

theorem words_cons_blank (rest : List Char) : words (' ' :: rest) = words rest :=
  words_append_blank [] rest

theorem words_blanks_append (count : Nat) (text : List Char) :
    words (List.replicate count ' ' ++ text) = words text := by
  induction count with
  | zero => rfl
  | succ count ih =>
      rw [List.replicate_succ, List.cons_append, words_cons_blank, ih]

theorem words_eq_singleton {word : List Char} (plain : ' ' ∉ word) (present : word ≠ []) :
    words word = [word] := by
  rw [words, List.splitOn_eq_singleton plain]
  simp [present]

/-- The number is the only word in its column. -/
theorem words_column (width value : Nat) : words (column width value) = [decimal value] := by
  have plain : ' ' ∉ decimal value := by
    intro member
    exact absurd (isDigit_of_mem_decimal member) (by decide)
  rw [column, List.leftpad, words_blanks_append, words_eq_singleton plain Nat.toDigits_ne_nil]

/-- Texts with blanks between them have their words one after the other. -/
theorem words_intercalate (texts : List (List Char)) :
    words (List.intercalate [' '] texts) = texts.flatMap words := by
  induction texts with
  | nil => rfl
  | cons text rest ih =>
      cases rest with
      | nil => simp
      | cons next later =>
          rw [List.intercalate_cons_cons, List.append_assoc, List.singleton_append,
            words_append_blank, ih]
          rfl

/-- A character that stands in none of the texts does not stand between them. -/
theorem notMem_intercalate {c : Char} (visible : c ≠ ' ') {texts : List (List Char)}
    (plain : ∀ text ∈ texts, c ∉ text) : c ∉ List.intercalate [' '] texts := by
  induction texts with
  | nil => exact List.not_mem_nil
  | cons text rest ih =>
      have later := ih fun other member => plain other (List.mem_cons_of_mem text member)
      have first := plain text List.mem_cons_self
      cases rest with
      | nil => simpa using first
      | cons next others =>
          rw [List.intercalate_cons_cons]
          simp [first, visible, later]

/-- A text whose words are decimal gives the numbers that they show. -/
theorem numbers?_eq_some {text : List Char} {values : List Nat}
    (shown : words text = values.map decimal) : numbers? text = some values := by
  have read (value : Nat) :
      (if (decimal value).all Char.isDigit then some (Numeral.value (decimal value)) else none) =
        some value := by
    rw [if_pos (List.all_eq_true.mpr fun _ => isDigit_of_mem_decimal), Numeral.value_decimal]
  rw [numbers?, shown, List.mapM_map]
  have whole := List.mapM_pure (m := Option) (l := values) (f := id)
  rw [List.map_id] at whole
  simp only [Function.comp_def, read]
  exact whole

end Rows

end Brainfuck
