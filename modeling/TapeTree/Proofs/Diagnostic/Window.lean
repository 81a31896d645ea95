import TapeTree.Proofs.Diagnostic.Carets

/-! The lines that are shown around a place, wherever the place is: before the source text, in it or
past its end. The window is cut off where the text ends, and each line in it has its own row. -/

namespace TapeTree.Diagnostic

open Text

/-- The row of a line, marked if it is the line in question, and a caret row below the marked one
for a column that is positive. -/
def shownRows (line column : Int) (entry : List Char × Nat) : List (List Char) :=
  (gutter (entry.2 = focus line) entry.2 ++ entry.1) ::
    if entry.2 = focus line ∧ 0 < column then
      [emptyGutter ++ (List.replicate (column - 1).toNat ' ' ++ ['^'])]
    else []

theorem map_lineRows (line column : Int) (entry : List Char × Nat) :
    (lineRows line column entry).map String.toList = shownRows line column entry := by
  rw [lineRows, shownRows, List.map_cons, toList_numberedRow]
  by_cases caret : entry.2 = focus line ∧ 0 < column
  · rw [if_pos caret, if_pos caret, List.map_singleton, toList_caretRow]
  · rw [if_neg caret, if_neg caret, List.map_nil]

theorem map_rows (texts : List (List Char)) (line column : Int) :
    (rows texts line column).map String.toList =
      (shownLines texts line).flatMap (shownRows line column) := by
  rw [rows, List.map_flatMap]
  simp only [map_lineRows]

theorem rows_eq_nil_iff (texts : List (List Char)) (line column : Int) :
    rows texts line column = [] ↔ shownLines texts line = [] := by
  rw [rows, List.flatMap_eq_nil_iff, List.eq_nil_iff_forall_not_mem]
  simp [lineRows]

theorem shownLines_eq_nil_iff {texts : List (List Char)} (filled : texts ≠ []) (line : Int) :
    shownLines texts line = [] ↔ texts.length + 2 < focus line := by
  have several : 0 < texts.length := List.length_pos_iff.mpr filled
  have first : 1 ≤ focus line := Int.le_max_left 1 line
  have numbers : shownLines texts line = [] ↔ shownNumbers texts.length line = [] := by
    rw [← map_snd_shownLines, List.map_eq_nil_iff]
  rw [numbers, shownNumbers, List.range'_eq_nil_iff, margin]
  omega

theorem caretFault?_eq_none_iff {memory : Nat → Bool} {count : Nat} {line column : Int} :
    caretFault? memory count line column = none ↔
      (0 < column → focus line ≤ count →
        column ≤ 0x8000000000000000 ∧ memory (column - 1).toNat) := by
  have first : 1 ≤ focus line := Int.le_max_left 1 line
  have shown : (focus line).toNat ∈ shownNumbers count line ↔ focus line ≤ count := by
    rw [mem_shownNumbers, margin]
    omega
  simp only [caretFault?, shown]
  split
  · rename_i due
    rw [sizeFault?_eq_none_iff, indexLimit]
    simp only [due, forall_const]
    apply and_congr_left
    intro _
    omega
  · rename_i notDue
    simp only [true_iff]
    exact fun positive inside => absurd ⟨positive, inside⟩ notDue

theorem make_eq_ok_iff {memory : Nat → Bool} {summary source : String} {line column : Int}
    {report : Diagnostic} :
    make memory summary source line column = .ok report ↔
      caretFault? memory (lines source.toList).length line column = none ∧
        locate summary source line column = report := by
  rw [make]
  cases caretFault? memory (lines source.toList).length line column <;> simp

/-- A report can be made on any place, as long as the blanks before its caret can be held. It shows
the lines of the source text that are within two of the marked one, from the top to the bottom, each
in a row with its number. The marked line has a caret right below it if the column is positive. -/
theorem make_shows_window (memory : Nat → Bool) (summary source : String) (line column : Int) :
    ((∃ report, make memory summary source line column = .ok report) ↔
      (0 < column → focus line ≤ (lines source.toList).length →
        column ≤ 0x8000000000000000 ∧ memory (column - 1).toNat)) ∧
    ∃ shown : List (List Char × Nat),
      shown.Pairwise (fun first second => first.2 < second.2) ∧
      (∀ text number, (text, number) ∈ shown ↔
        (1 ≤ number ∧ (lines source.toList)[number - 1]? = some text) ∧
          (number - focus line).natAbs ≤ 2) ∧
      (shown = [] ↔ (lines source.toList).length + 2 < focus line) ∧
      ∀ report, make memory summary source line column = .ok report →
        (shown = [] → report.context = "") ∧
        (shown ≠ [] → lines report.context.toList = shown.flatMap (shownRows line column)) := by
  refine ⟨?_, shownLines (lines source.toList) line, shownLines_increasing _ line, ?_,
    shownLines_eq_nil_iff (lines_ne_nil _) line, ?_⟩
  · simp only [make_eq_ok_iff, exists_and_left, exists_eq', and_true, caretFault?_eq_none_iff]
  · intro text number
    rw [mem_shownLines, margin]
    apply and_congr_right
    intro _
    omega
  · intro report made
    obtain ⟨_, rfl⟩ := make_eq_ok_iff.mp made
    constructor
    · intro empty
      rw [locate, (rows_eq_nil_iff _ line column).mpr empty]
      rfl
    · intro filled
      rw [lines_context_eq (mt (rows_eq_nil_iff _ line column).mp filled), map_rows]

/-- However much the memory has room for, no text has so many blanks. -/
theorem make_far_right :
    make (fun _ => true) "stray" "a" 1 0x8000000000000001 = .error .beyondIndex := by
  rfl

end TapeTree.Diagnostic
