/-
This file reads the cells of a tape back from the table that shows them.
-/

import Brainfuck.Proofs.Text.Columns
import Brainfuck.Tape.Dump
import Mathlib.Algebra.Order.Floor.Div

namespace Brainfuck.Tape

/-- This is what one row of a table says. -/
structure Reading where
  label : Nat
  values : List Nat

/-- The label stands before the colon of a row, and the values stand after it. -/
def Reading.ofRow? (row : List Char) : Option Reading :=
  match row.dropWhile (· != ':'), Rows.numbers? (row.takeWhile (· != ':')) with
  | ':' :: rest, some [label] => (Rows.numbers? rest).map fun values => { label, values }
  | _, _ => none

/-- Every row can be read, and the rows together show the values in their order. -/
structure Tabulates (text : List Char) (width : Nat) (values : List UInt8)
    (table : List Reading) : Prop where
  rows : (Rows.split text).map Reading.ofRow? = table.map some
  count : (Rows.split text).length = values.length ⌈/⌉ width
  label : ∀ index reading, table[index]? = some reading → reading.label = index * width
  full : ∀ index reading, table[index]? = some reading → index + 1 < table.length →
    reading.values.length = width
  bounds : ∀ reading ∈ table, 1 ≤ reading.values.length ∧ reading.values.length ≤ width
  values : table.flatMap Reading.values = values.map UInt8.toNat

/-- No values give no text, and all other values are tabulated. -/
def Displays (text : List Char) (width : Nat) (values : List UInt8) : Prop :=
  (values = [] → text = []) ∧ (values ≠ [] → ∃ table, Tabulates text width values table)

/-- A row that is written can be read. -/
theorem ofRow?_dumpRow (label : Nat) (values : List UInt8) :
    Reading.ofRow? (dumpRow label values) = some ⟨label, values.map UInt8.toNat⟩ := by
  have plain : ∀ c ∈ Rows.column 5 label, (c != ':') = true := by
    intro c member
    rw [bne_iff_ne]
    rintro rfl
    exact Rows.notMem_column (by decide) (by decide) 5 label member
  have front : Rows.words (Rows.column 5 label) = [label].map Rows.decimal :=
    Rows.words_column 5 label
  have back : Rows.words (' ' :: List.intercalate [' ']
      (values.map fun value => Rows.column 3 value.toNat)) =
      (values.map UInt8.toNat).map Rows.decimal := by
    rw [Rows.words_cons_blank, Rows.words_intercalate, List.flatMap_map, List.map_map]
    simp only [Rows.words_column]
    exact List.map_eq_flatMap.symm
  rw [Reading.ofRow?, dumpRow, List.takeWhile_append_of_pos plain,
    List.dropWhile_append_of_pos plain]
  simp [Rows.numbers?_eq_some front, Rows.numbers?_eq_some back]

theorem newline_notMem_dumpRow (label : Nat) (values : List UInt8) :
    '\n' ∉ dumpRow label values := by
  have column (width value : Nat) : '\n' ∉ Rows.column width value :=
    Rows.notMem_column (by decide) (by decide) width value
  have cells : '\n' ∉ List.intercalate [' '] (values.map fun value => Rows.column 3 value.toNat) := by
    apply Rows.notMem_intercalate (by decide)
    intro text member
    obtain ⟨value, -, rfl⟩ := List.mem_map.mp member
    exact column 3 value.toNat
  simp [dumpRow, column, cells]

/-- A row is needed as long as the rows before it do not show everything. -/
theorem lt_ceilDiv_iff {count width row : Nat} (positive : 0 < width) :
    row < count ⌈/⌉ width ↔ row * width < count := by
  rw [← not_le, ceilDiv_le_iff_le_mul positive, not_le, Nat.mul_comm]

section Portions

/-- The row with this number shows these of the values. -/
def portion (values : List UInt8) (width row : Nat) : List UInt8 :=
  (values.drop (row * width)).take width

variable {values : List UInt8} {width : Nat}

theorem length_portion (values : List UInt8) (width row : Nat) :
    (portion values width row).length = min width (values.length - row * width) := by
  rw [portion, List.length_take, List.length_drop]

/-- The first rows show the first values. -/
theorem flatMap_portion (values : List UInt8) (width rows : Nat) :
    (List.range rows).flatMap (portion values width) = values.take (rows * width) := by
  induction rows with
  | zero => simp
  | succ rows ih =>
      rw [List.range_succ, List.flatMap_append, ih, Nat.succ_mul, List.take_add]
      simp [portion]

/-- A row before the last one is full. -/
theorem length_portion_of_next {row : Nat} (positive : 0 < width)
    (next : row + 1 < values.length ⌈/⌉ width) : (portion values width row).length = width := by
  have more := (lt_ceilDiv_iff positive).mp next
  rw [Nat.succ_mul] at more
  rw [length_portion]
  omega

theorem length_portion_bounds {row : Nat} (positive : 0 < width)
    (inside : row < values.length ⌈/⌉ width) :
    1 ≤ (portion values width row).length ∧ (portion values width row).length ≤ width := by
  have more := (lt_ceilDiv_iff positive).mp inside
  rw [length_portion]
  omega

end Portions

section Readings

/-- These readings have all values, in rows of this width. -/
def readings (values : List UInt8) (width : Nat) : List Reading :=
  (List.range (values.length ⌈/⌉ width)).map fun row =>
    { label := row * width, values := (portion values width row).map UInt8.toNat }

variable {values : List UInt8} {width : Nat}

theorem getElem?_readings {index : Nat} {reading : Reading}
    (found : (readings values width)[index]? = some reading) :
    index < values.length ⌈/⌉ width ∧
      reading = ⟨index * width, (portion values width index).map UInt8.toNat⟩ := by
  obtain ⟨inside, value⟩ := List.getElem?_eq_some_iff.mp found
  rw [readings, List.length_map, List.length_range] at inside
  simp only [readings, List.getElem_map, List.getElem_range] at value
  exact ⟨inside, value.symm⟩

/-- Nothing is missing in the readings. -/
theorem flatMap_readings (values : List UInt8) (positive : 0 < width) :
    (readings values width).flatMap Reading.values = values.map UInt8.toNat := by
  have room : values.length ≤ values.length ⌈/⌉ width * width := by
    rw [Nat.mul_comm]
    exact le_smul_ceilDiv positive
  rw [readings, List.flatMap_map, ← List.map_flatMap, flatMap_portion,
    List.take_of_length_le room]

end Readings

section Tables

variable {values : Array UInt8} {width : Nat}

theorem dumpRows_eq (values : Array UInt8) (width : Nat) :
    dumpRows values width = (List.range (values.toList.length ⌈/⌉ width)).map fun row =>
      dumpRow (row * width) (portion values.toList width row) := by
  rw [dumpRows, Array.length_toList, Nat.ceilDiv_eq_add_pred_div]
  apply List.map_congr_left
  intro row _
  rw [portion, Array.toList_extract, List.extract_eq_take_drop, Nat.add_sub_cancel_left]

theorem split_join_dumpRows (positive : 0 < width) (present : values.toList ≠ []) :
    Rows.split (Rows.join (dumpRows values width)) = dumpRows values width := by
  have first : 0 < values.toList.length ⌈/⌉ width := by
    rw [lt_ceilDiv_iff positive, Nat.zero_mul]
    exact List.length_pos_iff.mpr present
  rw [dumpRows_eq]
  apply List.splitOn_intercalate
  · intro row member
    obtain ⟨index, -, rfl⟩ := List.mem_map.mp member
    exact newline_notMem_dumpRow _ _
  · intro empty
    rw [List.map_eq_nil_iff, List.range_eq_nil] at empty
    omega

theorem tabulates_dumpRows (positive : 0 < width) (present : values.toList ≠ []) :
    Tabulates (Rows.join (dumpRows values width)) width values.toList
      (readings values.toList width) where
  rows := by
    rw [split_join_dumpRows positive present, dumpRows_eq, readings, List.map_map, List.map_map]
    apply List.map_congr_left
    intro row _
    exact ofRow?_dumpRow _ _
  count := by
    rw [split_join_dumpRows positive present, dumpRows_eq, List.length_map, List.length_range]
  label := by
    intro index reading found
    obtain ⟨-, rfl⟩ := getElem?_readings found
    rfl
  full := by
    intro index reading found next
    obtain ⟨-, rfl⟩ := getElem?_readings found
    rw [readings, List.length_map, List.length_range] at next
    rw [List.length_map]
    exact length_portion_of_next positive next
  bounds := by
    intro reading member
    obtain ⟨index, found⟩ := List.mem_iff_getElem?.mp member
    obtain ⟨inside, rfl⟩ := getElem?_readings found
    rw [List.length_map]
    exact length_portion_bounds positive inside
  values := flatMap_readings values.toList positive

end Tables

/-- A text cannot be read in two ways. -/
theorem Tabulates.unique {text : List Char} {width : Nat} {first second : List UInt8}
    {table other : List Reading} (left : Tabulates text width first table)
    (right : Tabulates text width second other) : first = second := by
  have same : table = other :=
    List.map_injective_iff.mpr (Option.some_injective Reading) (left.rows.symm.trans right.rows)
  apply List.map_injective_iff.mpr fun _ _ => UInt8.toNat_inj.mp
  rw [← left.values, ← right.values, same]

/-- A table has at least one character. -/
theorem Tabulates.ne_nil {text : List Char} {width : Nat} {values : List UInt8}
    {table : List Reading} (tabulates : Tabulates text width values table) : text ≠ [] := by
  rintro rfl
  -- The one row of an empty text has no label.
  have rows : [none] = table.map some := tabulates.rows
  cases table with
  | nil => contradiction
  | cons reading rest => simp at rows

theorem Displays.unique {text : List Char} {width : Nat} {first second : List UInt8}
    (left : Displays text width first) (right : Displays text width second) : first = second := by
  by_cases firstEmpty : first = []
  · by_cases secondEmpty : second = []
    · rw [firstEmpty, secondEmpty]
    · obtain ⟨table, tabulates⟩ := right.2 secondEmpty
      exact absurd (left.1 firstEmpty) tabulates.ne_nil
  · obtain ⟨table, tabulates⟩ := left.2 firstEmpty
    by_cases secondEmpty : second = []
    · exact absurd (right.1 secondEmpty) tabulates.ne_nil
    · obtain ⟨other, others⟩ := right.2 secondEmpty
      exact tabulates.unique others

/-- A positive width always gives a table. -/
theorem dump?_eq_some (tape : Tape) (count : Int) {width : Nat} (positive : 0 < width) :
    tape.dump? count width =
      some (Rows.join (dumpRows (tape.cells.extract 0 (tape.shown count)) width)) := by
  have present : (width : Int) ≠ 0 := by omega
  have above : ¬ (width : Int) < 0 := by omega
  rw [dump?, if_neg present, if_neg above, Int.toNat_natCast]

theorem displays_dump (tape : Tape) (count : Int) {width : Nat} (positive : 0 < width) :
    Displays (Rows.join (dumpRows (tape.cells.extract 0 (tape.shown count)) width)) width
      (tape.snapshot count) := by
  constructor
  · intro empty
    have rows : dumpRows (tape.cells.extract 0 (tape.shown count)) width = [] := by
      rw [dumpRows_eq, ← snapshot, empty]
      simp
    rw [rows]
    rfl
  · intro present
    exact ⟨_, tabulates_dumpRows positive present⟩

/--
Every dump of a positive width can be read: its rows are labelled by the index of their first cell,
only the last one may be short, and together they have the cells of the snapshot. So two tapes with
the same dump have the same snapshot.
-/
theorem dump_displays_snapshot (count : Int) (width : Nat) (positive : 0 < width) :
    (∀ tape : Tape, ∃ text, tape.dump? count width = some text ∧
      Displays text width (tape.snapshot count)) ∧
    ∀ first second : Tape, first.dump? count width = second.dump? count width →
      first.snapshot count = second.snapshot count := by
  constructor
  · intro tape
    exact ⟨_, tape.dump?_eq_some count positive, tape.displays_dump count positive⟩
  · intro first second same
    rw [first.dump?_eq_some count positive, second.dump?_eq_some count positive,
      Option.some.injEq] at same
    have left := first.displays_dump count positive
    rw [same] at left
    exact left.unique (second.displays_dump count positive)

/-- The two tapes differ in the cursor and in the last cell, which is not shown. -/
theorem dump_displays_snapshot_short_last_row :
    Tape.dump? ⟨#[1, 255, 0, 7], 0, by decide⟩ (-1) 2 =
        some "    0:   1 255\n    2:   0".toList ∧
      Tape.dump? ⟨#[1, 255, 0, 9], 3, by decide⟩ (-1) 2 =
        some "    0:   1 255\n    2:   0".toList ∧
      Displays "    0:   1 255\n    2:   0".toList 2 [1, 255, 0] ∧
      Tape.snapshot ⟨#[1, 255, 0, 7], 0, by decide⟩ (-1) =
        Tape.snapshot ⟨#[1, 255, 0, 9], 3, by decide⟩ (-1) := by
  have dumped : Tape.dump? ⟨#[1, 255, 0, 7], 0, by decide⟩ (-1) 2 =
      some "    0:   1 255\n    2:   0".toList := by decide
  have other : Tape.dump? ⟨#[1, 255, 0, 9], 3, by decide⟩ (-1) 2 =
      some "    0:   1 255\n    2:   0".toList := by decide
  obtain ⟨displayed, equal⟩ := dump_displays_snapshot (-1) 2 (by decide)
  obtain ⟨text, shown, displays⟩ := displayed ⟨#[1, 255, 0, 7], 0, by decide⟩
  obtain rfl := Option.some.inj (dumped.symm.trans shown)
  exact ⟨dumped, other, displays, equal _ _ (dumped.trans other.symm)⟩

end Brainfuck.Tape
