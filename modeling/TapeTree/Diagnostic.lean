import TapeTree.Size
import TapeTree.Text.Lines

/-! Messages about a place in a source text, with the lines around it and a caret below it. -/

namespace TapeTree

structure Diagnostic where
  summary : String
  line : Int
  column : Int
  context : String
deriving DecidableEq

namespace Diagnostic

def margin : Int := 2

def numberedRow (marked : Bool) (number : Nat) (text : List Char) : String :=
  (if marked then "> " else "  ") ++ Text.alignRight 4 number ++ " | " ++ String.ofList text

def caretRow (column : Int) : String :=
  "       | " ++ String.ofList (List.replicate (column - 1).toNat ' ') ++ "^"

/-- The line that is marked: the given one, or the first if that comes before it. -/
def focus (line : Int) : Int :=
  max 1 line

/-- The numbers of the lines that are shown, cut off at both ends of a text with so many lines. -/
def shownNumbers (count : Nat) (line : Int) : List Nat :=
  let first := max 1 (focus line - margin)
  let last := min (count : Int) (focus line + margin)
  List.range' first.toNat (last + 1 - first).toNat

theorem mem_shownNumbers {count number : Nat} {line : Int} :
    number ∈ shownNumbers count line ↔
      (1 ≤ number ∧ number ≤ count) ∧ (number - focus line).natAbs ≤ margin := by
  have first : 1 ≤ focus line := Int.le_max_left 1 line
  simp only [shownNumbers, margin, List.mem_range'_1]
  omega

def shownLines (texts : List (List Char)) (line : Int) : List (List Char × Nat) :=
  (shownNumbers texts.length line).attach.map fun ⟨number, shown⟩ =>
    have inside : number - 1 < texts.length := by
      obtain ⟨bounds, _⟩ := mem_shownNumbers.mp shown
      omega
    (texts[number - 1], number)

def lineRows (line column : Int) (entry : List Char × Nat) : List String :=
  numberedRow (entry.2 = focus line) entry.2 entry.1 ::
    if entry.2 = focus line ∧ 0 < column then [caretRow column] else []

def rows (texts : List (List Char)) (line column : Int) : List String :=
  (shownLines texts line).flatMap (lineRows line column)

def locate (summary source : String) (line column : Int) : Diagnostic :=
  { summary, line, column
    context := "\n".intercalate (rows (Text.lines source.toList) line column) }

/-- Why the blanks before the caret cannot be held, if there is a caret row and they cannot. -/
def caretFault? (memory : Nat → Bool) (count : Nat) (line column : Int) : Option SizeFault :=
  if 0 < column ∧ (focus line).toNat ∈ shownNumbers count line then
    sizeFault? memory (column - 1).toNat
  else none

/-- The report on any place, also on one that no command of a source text has. How many blanks the
memory has room for in a row is left open. -/
def make (memory : Nat → Bool) (summary source : String) (line column : Int) :
    Except SizeFault Diagnostic :=
  match caretFault? memory (Text.lines source.toList).length line column with
  | some why => .error why
  | none => .ok (locate summary source line column)

def mentions (part : List Char) : List Char → Bool
  | [] => part.isEmpty
  | char :: rest => part.isPrefixOf (char :: rest) || mentions part rest

def hint? (summary : String) : Option String :=
  let lowered := summary.toList.map Char.toLower
  if mentions "unmatched ']'".toList lowered then
    some "Every \"]\" needs an earlier \"[\" at the same nesting depth. Remove the extra \"]\" or add the missing \"[\"."
  else if mentions "unmatched '['".toList lowered then
    some "Close the loop with \"]\" or run without --strict to close it implicitly at end of input."
  else none

def place (line column : Int) : String :=
  if column = 0 then "line " ++ toString line
  else "line " ++ toString line ++ ", column " ++ toString column

def message (report : Diagnostic) : String :=
  "ParseError: " ++ report.summary ++ " (" ++ place report.line report.column ++ ")\n"
    ++ report.context
    ++ match hint? report.summary with
      | some advice => "\nHint: " ++ advice
      | none => ""

end Diagnostic

end TapeTree
