import Mathlib.Data.List.Basic
import Mathlib.Data.List.Induction
import TapeTree.Proofs.Text.Reading
import TapeTree.Proofs.Tree.Places

/-! Where the caret of a parse error stands. The row of the reported line is numbered in a column
that grows with the number, the row below it has a margin that does not grow. -/

namespace TapeTree

/-- What is read of a text fixes all its lines but the last, and how the last one begins. -/
theorem Text.exists_lines_append (before : List Char) :
    ∃ front start, front.length = before.count '\n' ∧ start.length = lastLineLength before ∧
      ∀ after, lines (before ++ after) = front ++ (lines after).modifyHead (start ++ ·) := by
  induction before using List.reverseRecOn with
  | nil =>
      refine ⟨[], [], rfl, rfl, fun after => ?_⟩
      rw [List.nil_append]
      cases lines after <;> rfl
  | append_singleton before char ih =>
      obtain ⟨front, start, count, length, split⟩ := ih
      by_cases newline : char = '\n'
      · refine ⟨front ++ [start], [], ?_, ?_, fun after => ?_⟩
        · simp [count, newline]
        · rw [lastLineLength_concat, if_pos newline, List.length_nil]
        · rw [List.append_assoc, List.singleton_append, split, lines_cons, if_pos newline]
          cases lines after <;> simp
      · refine ⟨front, start ++ [char], ?_, ?_, fun after => ?_⟩
        · simp [count, newline]
        · rw [lastLineLength_concat, if_neg newline, ← length, List.length_append,
            List.length_singleton]
        · rw [List.append_assoc, List.singleton_append, split, lines_cons, if_neg newline]
          cases lines after <;> simp

namespace Diagnostic

open Text

def gutter (marked : Bool) (number : Nat) : List Char :=
  (if marked then '>' else ' ') :: ' ' :: ((alignRight 4 number).toList ++ [' ', '|', ' '])

def emptyGutter : List Char :=
  List.replicate 7 ' ' ++ ['|', ' ']

def IsCaretRow (row : List Char) : Prop :=
  ∃ blanks, row = emptyGutter ++ (List.replicate blanks ' ' ++ ['^'])

theorem toList_numberedRow (marked : Bool) (number : Nat) (text : List Char) :
    (numberedRow marked number text).toList = gutter marked number ++ text := by
  cases marked <;> simp [numberedRow, gutter]

theorem toList_caretRow (column : Int) :
    (caretRow column).toList =
      emptyGutter ++ (List.replicate (column - 1).toNat ' ' ++ ['^']) := by
  simp [caretRow, emptyGutter]

theorem isCaretRow_caretRow (column : Int) : IsCaretRow (caretRow column).toList :=
  ⟨_, toList_caretRow column⟩

theorem idxOf_caretRow (column : Int) :
    (caretRow column).toList.idxOf '^' = 9 + (column - 1).toNat := by
  have noCaret : '^' ∉ List.replicate (column - 1).toNat ' ' := by
    intro caret
    have blank := List.eq_of_mem_replicate caret
    cases blank
  rw [toList_caretRow, List.idxOf_append_of_notMem (by decide),
    List.idxOf_append_of_notMem noCaret, List.idxOf_cons_self, List.length_replicate]
  rfl

theorem length_alignRight (number : Nat) :
    (alignRight 4 number).toList.length = max 4 (Nat.toDigits 10 number).length := by
  rw [toList_alignRight_nat, List.length_append, List.length_replicate]
  omega

theorem length_gutter (marked : Bool) (number : Nat) :
    (gutter marked number).length = 9 ↔ number < 10000 := by
  have short : (Nat.toDigits 10 number).length ≤ 4 ↔ number < 10 ^ 4 :=
    Nat.length_toDigits_le_iff (by decide) (by decide)
  simp only [gutter, List.length_cons, List.length_append, length_alignRight, List.length_nil]
  omega

theorem isDigit_alignRight (number : Nat) {char : Char}
    (found : (alignRight 4 number).toList[3]? = some char) : char.isDigit := by
  have filled : 0 < (Nat.toDigits 10 number).length := Nat.length_toDigits_pos
  rw [toList_alignRight_nat, List.getElem?_append_right] at found
  · exact isDigit_of_mem_decimal (List.mem_of_getElem? found)
  · rw [List.length_replicate]
    omega

theorem not_isCaretRow_gutter (marked : Bool) (number : Nat) (text : List Char) :
    ¬ IsCaretRow (gutter marked number ++ text) := by
  rintro ⟨blanks, same⟩
  -- the sixth character of a gutter is a digit, whatever the width of the number
  have long := length_alignRight number
  have sixth : (gutter marked number ++ text)[5]? = (alignRight 4 number).toList[3]? := by
    rw [gutter, List.cons_append, List.cons_append, List.append_assoc, List.getElem?_cons_succ,
      List.getElem?_cons_succ, List.getElem?_append_left (by omega)]
  have blank : (emptyGutter ++ (List.replicate blanks ' ' ++ ['^']))[5]? = some ' ' := by
    rw [List.getElem?_append_left (by decide)]
    rfl
  rw [same, blank] at sixth
  have digit := isDigit_alignRight number sixth.symm
  cases digit

theorem newline_not_mem_gutter (marked : Bool) (number : Nat) : '\n' ∉ gutter marked number := by
  intro newline
  have aligned : '\n' ∈ (alignRight 4 number).toList := by
    cases marked <;> simpa [gutter] using newline
  rcases mem_alignRight aligned with blank | digit | minus
  · cases blank
  · cases digit
  · cases minus

theorem idxOf_caretRow_eq_iff (marked : Bool) (number index : Nat) :
    (caretRow (1 + index : Nat)).toList.idxOf '^' = (gutter marked number).length + index ↔
      number < 10000 := by
  have width := length_gutter marked number
  rw [idxOf_caretRow]
  omega

theorem head?_gutter (marked : Bool) (number : Nat) (text : List Char) :
    (gutter marked number ++ text).head? = some (if marked then '>' else ' ') := rfl

theorem head?_caretRow {row : List Char} (caret : IsCaretRow row) : row.head? = some ' ' := by
  obtain ⟨blanks, rfl⟩ := caret
  rfl

/-- One of the rows is marked and one has a caret, which is the row right below the marked one. -/
def OneCaret (rows : List (List Char)) (marked caret : List Char) : Prop :=
  ∃ above below, rows = above ++ marked :: caret :: below ∧
    marked.head? = some '>' ∧ (∀ row ∈ above ++ caret :: below, row.head? = some ' ') ∧
    IsCaretRow caret ∧ ∀ row ∈ above ++ marked :: below, ¬ IsCaretRow row

theorem oneCaret_of_unmarked {above below : List (List Char)}
    (unmarked : ∀ row ∈ above ++ below, ∃ number text, row = gutter false number ++ text)
    (number : Nat) (text : List Char) (column : Int) :
    OneCaret (above ++ (gutter true number ++ text) :: (caretRow column).toList :: below)
      (gutter true number ++ text) (caretRow column).toList := by
  have caret := isCaretRow_caretRow column
  have between {row other : List Char} (member : row ∈ above ++ other :: below) :
      row = other ∨ row ∈ above ++ below := by
    simpa [or_left_comm] using member
  refine ⟨above, below, rfl, head?_gutter true number text, ?_, caret, ?_⟩
  · intro row member
    rcases between member with rfl | inside
    · exact head?_caretRow caret
    · obtain ⟨number, text, rfl⟩ := unmarked row inside
      exact head?_gutter false number text
  · intro row member
    rcases between member with rfl | inside
    · exact not_isCaretRow_gutter true number text
    · obtain ⟨number, text, rfl⟩ := unmarked row inside
      exact not_isCaretRow_gutter false number text

/-! The rows around a place of a source text. -/

theorem map_snd_shownLines (texts : List (List Char)) (line : Int) :
    (shownLines texts line).map Prod.snd = shownNumbers texts.length line := by
  rw [shownLines, List.map_map]
  exact List.attach_map_subtype_val _

theorem shownLines_increasing (texts : List (List Char)) (line : Int) :
    (shownLines texts line).Pairwise fun first second => first.2 < second.2 := by
  rw [← List.pairwise_map, map_snd_shownLines]
  exact List.pairwise_lt_range' 1

theorem mem_shownLines {texts : List (List Char)} {line : Int} {text : List Char} {number : Nat} :
    (text, number) ∈ shownLines texts line ↔
      (1 ≤ number ∧ texts[number - 1]? = some text) ∧ (number - focus line).natAbs ≤ margin := by
  rw [shownLines, List.mem_map]
  constructor
  · rintro ⟨⟨_, shown⟩, _, ⟨⟩⟩
    obtain ⟨⟨least, _⟩, near⟩ := mem_shownNumbers.mp shown
    exact ⟨⟨least, List.getElem?_eq_getElem _⟩, near⟩
  · rintro ⟨⟨least, found⟩, near⟩
    obtain ⟨inside, rfl⟩ := List.getElem?_eq_some_iff.mp found
    have shown : number ∈ shownNumbers texts.length line :=
      mem_shownNumbers.mpr ⟨⟨least, by omega⟩, near⟩
    exact ⟨⟨number, shown⟩, List.mem_attach _ _, rfl⟩

theorem lineRows_marked {line column : Int} {number : Nat} (marked : number = focus line)
    (positive : 0 < column) (text : List Char) :
    lineRows line column (text, number) = [numberedRow true number text, caretRow column] := by
  simp [lineRows, marked, positive]

theorem lineRows_unmarked {line : Int} {number : Nat} (other : number ≠ focus line)
    (column : Int) (text : List Char) :
    lineRows line column (text, number) = [numberedRow false number text] := by
  simp [lineRows, other]

theorem rows_split {texts : List (List Char)} {line column : Int} {number : Nat}
    {text : List Char} (shown : (text, number) ∈ shownLines texts line)
    (marked : number = focus line) (positive : 0 < column) :
    ∃ above below,
      rows texts line column = above ++ numberedRow true number text :: caretRow column :: below ∧
      ∀ row ∈ above ++ below, ∃ number text, row = numberedRow false number text := by
  obtain ⟨above, below, split⟩ := List.append_of_mem shown
  refine ⟨above.flatMap (lineRows line column), below.flatMap (lineRows line column), ?_, ?_⟩
  · rw [rows, split, List.flatMap_append, List.flatMap_cons, lineRows_marked marked positive]
    rfl
  · -- the numbers increase, so that no other line has the number of the marked one
    have increasing := shownLines_increasing texts line
    rw [split] at increasing
    obtain ⟨_, after, before⟩ := List.pairwise_append.mp increasing
    have apart : ∀ entry ∈ above ++ below, entry.2 ≠ number := by
      intro entry member
      rcases List.mem_append.mp member with early | late
      · exact Nat.ne_of_lt (before entry early _ List.mem_cons_self)
      · exact Nat.ne_of_gt (List.rel_of_pairwise_cons after late)
    intro row member
    rw [← List.flatMap_append, List.mem_flatMap] at member
    obtain ⟨⟨other, place⟩, member, shown⟩ := member
    have unmarked : (place : Int) ≠ focus line := by
      rw [← marked]
      exact fun same => apart _ member (Int.ofNat.inj same)
    rw [lineRows_unmarked unmarked] at shown
    exact ⟨place, other, List.mem_singleton.mp shown⟩

theorem newline_not_mem_lineRows {line column : Int} {entry : List Char × Nat}
    (single : '\n' ∉ entry.1) {row : String} (member : row ∈ lineRows line column entry) :
    '\n' ∉ row.toList := by
  rw [lineRows, List.mem_cons] at member
  rcases member with rfl | caret
  · rw [toList_numberedRow, List.mem_append, not_or]
    exact ⟨newline_not_mem_gutter _ entry.2, single⟩
  · split at caret
    · rw [List.mem_singleton.mp caret, toList_caretRow]
      simp [emptyGutter]
    · cases caret

theorem newline_not_mem_rows {source : List Char} {line column : Int} {row : String}
    (member : row ∈ rows (lines source) line column) : '\n' ∉ row.toList := by
  rw [rows, List.mem_flatMap] at member
  obtain ⟨⟨text, number⟩, shown, member⟩ := member
  obtain ⟨⟨_, found⟩, _⟩ := mem_shownLines.mp shown
  exact newline_not_mem_lineRows (not_mem_of_mem_lines (List.mem_of_getElem? found)) member

theorem lines_context_eq {source : String} {line column : Int}
    (filled : rows (lines source.toList) line column ≠ []) (words : String) :
    lines (locate words source line column).context.toList =
      (rows (lines source.toList) line column).map String.toList :=
  lines_intercalate filled fun _ member => newline_not_mem_rows member

/-- The report on a character of a source text shows its line, with a caret row below it, among
rows of other lines. -/
theorem lines_context {source : String} {before after : List Char} {char : Char}
    (split : source.toList = before ++ char :: after) (inLine : char ≠ '\n') (words : String) :
    ∃ above below start rest,
      lines (locate words source (1 + before.count '\n' : Nat)
          (1 + lastLineLength before : Nat)).context.toList =
        above ++ (gutter true (1 + before.count '\n') ++ (start ++ char :: rest)) ::
          (caretRow (1 + lastLineLength before : Nat)).toList :: below ∧
      (∀ row ∈ above ++ below, ∃ number text, row = gutter false number ++ text) ∧
      start.length = lastLineLength before ∧
      (lines source.toList)[before.count '\n']? = some (start ++ char :: rest) := by
  obtain ⟨front, start, count, length, whole⟩ := exists_lines_append before
  obtain ⟨finish, back, behind⟩ := List.exists_cons_of_ne_nil (lines_ne_nil after)
  have sourceLines : lines source.toList = front ++ (start ++ char :: finish) :: back := by
    rw [split, whole, lines_cons, if_neg inLine, behind]
    rfl
  have inSource : (lines source.toList)[before.count '\n']? = some (start ++ char :: finish) := by
    rw [sourceLines, ← count, List.getElem?_append_right (Nat.le_refl _), Nat.sub_self]
    rfl
  have marked : ((1 + before.count '\n' : Nat) : Int) = focus (1 + before.count '\n' : Nat) := by
    simp only [focus]
    omega
  have inWindow : (start ++ char :: finish, 1 + before.count '\n') ∈
      shownLines (lines source.toList) (1 + before.count '\n' : Nat) := by
    refine mem_shownLines.mpr ⟨⟨Nat.le_add_right 1 _, ?_⟩, ?_⟩
    · rw [Nat.add_sub_cancel_left]
      exact inSource
    · rw [← marked, Int.sub_self]
      decide
  have positive : (0 : Int) < (1 + lastLineLength before : Nat) := by omega
  obtain ⟨above, below, shown, others⟩ := rows_split inWindow marked positive
  have filled : rows (lines source.toList) (1 + before.count '\n' : Nat)
      (1 + lastLineLength before : Nat) ≠ [] := by
    rw [shown]
    simp
  refine ⟨above.map String.toList, below.map String.toList, start, finish, ?_, ?_, length,
    inSource⟩
  · rw [lines_context_eq filled, shown, List.map_append, List.map_cons, List.map_cons,
      toList_numberedRow]
  · intro row member
    rw [← List.map_append, List.mem_map] at member
    obtain ⟨row, member, rfl⟩ := member
    obtain ⟨number, text, rfl⟩ := others row member
    exact ⟨number, text, toList_numberedRow false number text⟩

end Diagnostic

namespace Tree

open Command Diagnostic Text

theorem located_of_refused {source : String} {strict : Bool} {report : Diagnostic}
    (refused : parse strict source = .error (.unmatched report)) :
    ∃ words, report = locate words source report.line report.column := by
  rw [parse] at refused
  cases built : (build { strict } (Token.ofSource source)).result with
  | ok tree =>
      simp only [built] at refused
      cases refused
  | error error =>
      simp only [built] at refused
      replace refused := Except.error.inj refused
      revert refused
      cases error <;> cases (Trail.ofTaken _).blamed? <;> intro refused <;> cases refused <;>
        exact ⟨_, rfl⟩

/-- A parse error shows one caret row, right below the row of the line that it reports, which alone
is marked. The caret stands under the bracket that is reported exactly if the number of the line
has at most four digits. -/
theorem caret_under_bracket_iff {source : String} {strict : Bool} {report : Diagnostic}
    (nested : NestedWithin 1000 (ofSource source))
    (refused : parse strict source = .error (.unmatched report)) :
    ∃ marked caret, OneCaret (lines report.context.toList) marked caret ∧
      ∃ index bracket words before after number start rest,
        Blamed (ofSource source) index bracket words ∧ report.Says words ∧
        source.toList = before ++ bracket.symbol :: after ∧
        (before.filterMap ofChar?).length = index ∧
        report.line = (number : Nat) ∧ number = 1 + before.count '\n' ∧
        report.column = 1 + start.length ∧ start.length = lastLineLength before ∧
        (lines source.toList)[number - 1]? = some (start ++ bracket.symbol :: rest) ∧
        marked = gutter true number ++ (start ++ bracket.symbol :: rest) ∧
        (caret.idxOf '^' = (gutter true number ++ start).length ↔ number < 10000) := by
  obtain ⟨_, index, bracket, words, ⟨⟩, blamed, wording, before, char, after, split, named, count,
    line, column⟩ := blamed_of_refused (nested.mono (by decide)) refused
  have symbol := symbol_eq_of_ofChar? named
  subst symbol
  have inLine : bracket.symbol ≠ '\n' := by
    intro newline
    rw [newline] at named
    cases named
  obtain ⟨summary, located⟩ := located_of_refused refused
  have lineIs : report.line = (1 + before.count '\n' : Nat) := by omega
  have columnIs : report.column = (1 + lastLineLength before : Nat) := by omega
  obtain ⟨above, below, start, rest, shown, unmarked, length, inSource⟩ :=
    lines_context split inLine summary
  rw [← lineIs, ← columnIs, ← located] at shown
  refine ⟨_, (caretRow report.column).toList, ?_, index, bracket, words, before, after, _, start,
    rest, blamed, wording, split, count, lineIs, rfl, ?_, length, ?_, rfl, ?_⟩
  · rw [shown]
    exact oneCaret_of_unmarked unmarked _ _ _
  · rw [length]
    exact column
  · rw [Nat.add_sub_cancel_left]
    exact inSource
  · rw [columnIs, List.length_append, length]
    exact idxOf_caretRow_eq_iff true _ _

theorem caret_under_stray_bracket :
    NestedWithin 1000 (ofSource "+[-]\n ]-") ∧
    ∃ report, parse false "+[-]\n ]-" = .error (.unmatched report) ∧
      ∃ marked caret, OneCaret (lines report.context.toList) marked caret ∧
        caret.idxOf '^' = 10 ∧ ∃ index bracket words,
          Blamed (ofSource "+[-]\n ]-") index bracket words ∧ marked[10]? = some bracket.symbol := by
  have nested : NestedWithin 1000 (ofSource "+[-]\n ]-") := by
    have commands : ofSource "+[-]\n ]-" =
        [.increment, .openLoop, .decrement, .closeLoop, .closeLoop, .decrement] := by decide
    rw [commands, NestedWithin]
    simp [forall_start_cons, depth]
  have refused : parse false "+[-]\n ]-" = .error (.unmatched _) := rfl
  obtain ⟨marked, caret, oneCaret, index, bracket, words, before, after, number, start, rest, blamed,
    _, _, _, line, _, column, _, _, whole, under⟩ := caret_under_bracket_iff nested refused
  have second : number = 2 := by
    have place : (2 : Int) = (number : Nat) := line
    omega
  have one : start.length = 1 := by
    have place : (2 : Int) = 1 + start.length := column
    omega
  have width : (gutter true number ++ start).length = 10 := by
    rw [List.length_append, one, (length_gutter true number).mpr (by omega)]
  rw [width] at under
  refine ⟨nested, _, refused, marked, caret, oneCaret, under.mpr (by omega), index, bracket, words,
    blamed, ?_⟩
  rw [whole, ← List.append_assoc, List.getElem?_append_right (by omega), width]
  rfl

theorem scan_newlines (line count : Nat) (rest : List Char) :
    Token.scan line 0 (List.replicate count '\n' ++ rest) = Token.scan (line + count) 0 rest := by
  induction count generalizing line with
  | zero => rfl
  | succ count ih =>
      rw [List.replicate_succ, List.cons_append, Token.scan, if_pos rfl, ih]
      congr 1
      omega

/-- From line 10000 on the number needs a fifth digit, and the caret stands one place before the
bracket. -/
theorem caret_beside_bracket :
    ∃ report above rest below,
      parse false (String.ofList (List.replicate 9999 '\n' ++ [']'])) =
        .error (.unmatched report) ∧
      lines report.context.toList =
        above ++ ("> 10000 | ]".toList ++ rest) :: "       | ^".toList :: below ∧
      "> 10000 | ]".toList.idxOf ']' = 10 ∧ "       | ^".toList.idxOf '^' = 9 := by
  have text : (String.ofList (List.replicate 9999 '\n' ++ [']'])).toList =
      List.replicate 9999 '\n' ++ [']'] := String.toList_ofList
  have tokens : Token.ofSource (String.ofList (List.replicate 9999 '\n' ++ [']'])) =
      [⟨.closeLoop, 10000, 1⟩] := by
    rw [Token.ofSource, text, scan_newlines]
    rfl
  have count : (List.replicate 9999 '\n').count '\n' = 9999 := List.count_replicate_self
  have length : lastLineLength (List.replicate 9999 '\n') = 0 := by
    rw [lastLineLength, List.reverse_replicate, List.replicate_succ]
    rfl
  obtain ⟨above, below, start, rest, shown, _, none, _⟩ :=
    lines_context text (by decide) "Unmatched ']'"
  rw [length] at none
  rw [count, length, List.eq_nil_of_length_eq_zero none] at shown
  refine ⟨_, above, rest, below, ?_, shown, by decide, by decide⟩
  rw [parse, tokens]
  rfl

end Tree

end TapeTree
