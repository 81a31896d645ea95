import TapeTree.CommandLine
import TapeTree.Proofs.Text.Reading

/-! The rows of cells that are shown after a run, read back: the numbers behind the labels are the
cells in order. -/

namespace TapeTree.CommandLine

open Text

def rowNumbers (row : List Char) : List Nat :=
  (words ((row.dropWhile (· ≠ ':')).drop 1)).filterMap readNat?

/-- The numbers in all rows of cells. The line in front of them has none. -/
def shownCells (text : String) : List Nat :=
  (lines text.toList).tail.flatMap rowNumbers

def cellColumns (cells : List UInt8) : List Char :=
  (" ".intercalate (cells.map fun cell => alignRight 3 cell.toNat)).toList

theorem cellColumns_singleton (cell : UInt8) :
    cellColumns [cell] = (alignRight 3 cell.toNat).toList := by
  rw [cellColumns, List.map_singleton, String.intercalate_singleton]

theorem cellColumns_cons (cell second : UInt8) (rest : List UInt8) :
    cellColumns (cell :: second :: rest) =
      (alignRight 3 cell.toNat).toList ++ ' ' :: cellColumns (second :: rest) := by
  rw [cellColumns, cellColumns, String.toList_intercalate, String.toList_intercalate]
  simp only [List.map_cons, List.intercalate_cons_cons]
  rw [List.append_assoc]
  rfl

theorem readNat?_words_cellColumns (cells : List UInt8) :
    (words (cellColumns cells)).filterMap readNat? = cells.map UInt8.toNat := by
  induction cells with
  | nil => rfl
  | cons cell rest ih =>
      cases rest with
      | nil =>
          rw [cellColumns_singleton, words_alignRight]
          simp [readNat?_toDigits]
      | cons second rest =>
          rw [cellColumns_cons, words_append_blank, words_alignRight, List.filterMap_append, ih]
          simp [readNat?_toDigits]

theorem mem_cellColumns {cells : List UInt8} {char : Char} (member : char ∈ cellColumns cells) :
    char = ' ' ∨ IsNumeric char := by
  induction cells with
  | nil => cases member
  | cons cell rest ih =>
      cases rest with
      | nil =>
          rw [cellColumns_singleton] at member
          exact mem_alignRight member
      | cons second rest =>
          rw [cellColumns_cons] at member
          rcases List.mem_append.mp member with here | later
          · exact mem_alignRight here
          · rcases List.mem_cons.mp later with blank | later
            · exact Or.inl blank
            · exact ih later

theorem rowNumbers_of_label {label : List Char} (noColon : ':' ∉ label) (cells : List UInt8) :
    rowNumbers (label ++ ':' :: ' ' :: cellColumns cells) = cells.map UInt8.toNat := by
  have skipped : (label ++ ':' :: ' ' :: cellColumns cells).dropWhile (· ≠ ':') =
      ':' :: ' ' :: cellColumns cells := by
    rw [List.dropWhile_append_of_pos]
    · rfl
    · intro char member
      simp only [ne_eq, decide_eq_true_eq]
      rintro rfl
      exact noColon member
  have blank := words_append_blank [] (cellColumns cells)
  rw [rowNumbers, skipped, ← readNat?_words_cellColumns]
  exact congrArg (List.filterMap readNat?) blank

theorem exists_row (cells : List UInt8) (first : Nat) :
    ∃ row, (tapeRow cells first).toList = row ++ ['\n'] ∧ '\n' ∉ row ∧
      rowNumbers row = ((cells.drop first).take rowWidth).map UInt8.toNat := by
  have column {char : Char} (other : char = ':' ∨ char = '\n') :
      ¬ (char = ' ' ∨ IsNumeric char) := by
    rcases other with rfl | rfl <;> simp [IsNumeric, Char.isDigit]
  refine ⟨(alignRight 5 first).toList ++ ':' :: ' ' :: cellColumns ((cells.drop first).take rowWidth),
    ?_, ?_, ?_⟩
  · rw [tapeRow]
    simp [cellColumns]
  · intro member
    rcases List.mem_append.mp member with label | cell
    · exact column (Or.inr rfl) (mem_alignRight label)
    · have later : '\n' ∈ cellColumns ((cells.drop first).take rowWidth) := by
        simpa using cell
      exact column (Or.inr rfl) (mem_cellColumns later)
  · apply rowNumbers_of_label
    intro member
    exact column (Or.inl rfl) (mem_alignRight member)

theorem rowNumbers_rows (cells : List UInt8) (firsts : List Nat) :
    (lines (firsts.flatMap fun first => (tapeRow cells first).toList)).flatMap rowNumbers =
      firsts.flatMap fun first => ((cells.drop first).take rowWidth).map UInt8.toNat := by
  induction firsts with
  | nil => rfl
  | cons first rest ih =>
      obtain ⟨row, written, single, numbers⟩ := exists_row cells first
      rw [List.flatMap_cons, List.flatMap_cons, written, List.append_assoc, List.singleton_append,
        lines_append single, List.flatMap_cons, numbers, ih]

theorem flatMap_chunks (cells : List UInt8) (width count : Nat) :
    ((List.range count).flatMap fun row => (cells.drop (width * row)).take width) =
      cells.take (width * count) := by
  induction count with
  | zero => simp
  | succ count ih =>
      rw [List.range_succ, List.flatMap_append, ih, Nat.mul_succ, List.take_add]
      simp

theorem rowNumbers_tapeRows (cells : List UInt8) :
    (lines (tapeRows cells).toList).flatMap rowNumbers = cells.map UInt8.toNat := by
  have firsts : (tapeRows cells).toList =
      ((List.range ((cells.length + rowWidth - 1) / rowWidth)).map (rowWidth * ·)).flatMap
        fun first => (tapeRow cells first).toList := by
    rw [tapeRows, String.toList_join, List.flatMap_map, List.flatMap_map]
  have enough : cells.length ≤ rowWidth * ((cells.length + rowWidth - 1) / rowWidth) := by
    rw [rowWidth]
    omega
  rw [firsts, rowNumbers_rows, List.flatMap_map, ← List.map_flatMap, flatMap_chunks,
    List.take_of_length_le enough]

theorem shownCells_tapeText (machine : Machine) (cells : List UInt8) :
    shownCells (tapeText machine cells) = cells.map UInt8.toNat := by
  have numeral (number : Int) : '\n' ∉ (toString number).toList := by
    intro member
    rcases isNumeric_of_mem_toString member with digit | minus
    · cases digit
    · cases minus
  have single : '\n' ∉ ("pointer=" ++ toString machine.tape.pointer ++ " steps=" ++
      toString machine.steps).toList := by
    simp only [String.toList_append, List.mem_append, not_or]
    exact ⟨⟨⟨by decide, numeral machine.tape.pointer⟩, by decide⟩, numeral machine.steps⟩
  have whole : (tapeText machine cells).toList = ("pointer=" ++ toString machine.tape.pointer ++
      " steps=" ++ toString machine.steps).toList ++ '\n' :: (tapeRows cells).toList := by
    rw [tapeText, String.toList_append, String.toList_append, List.append_assoc]
    rfl
  rw [shownCells, whole, lines_append single, List.tail_cons, rowNumbers_tapeRows]

end TapeTree.CommandLine
