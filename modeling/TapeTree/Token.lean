import TapeTree.Command

/-! Commands with their places in the source text. Lines and columns count from one,
columns count code points, and only a line feed ends a line. -/

namespace TapeTree

structure Token where
  command : Command
  line : Nat
  column : Nat
deriving DecidableEq

namespace Token

/-- The tokens of a text that goes on at `line`, after `column` characters of it. -/
def scan (line column : Nat) : List Char → List Token
  | [] => []
  | char :: rest =>
      if char = '\n' then scan (line + 1) 0 rest
      else
        match Command.ofChar? char with
        | some command => ⟨command, line, column + 1⟩ :: scan line (column + 1) rest
        | none => scan line (column + 1) rest

def ofSource (source : String) : List Token :=
  scan 1 0 source.toList

theorem scan_map_command (line column : Nat) (text : List Char) :
    (scan line column text).map command = text.filterMap Command.ofChar? := by
  induction text generalizing line column with
  | nil => rfl
  | cons char rest ih =>
      by_cases newline : char = '\n'
      · have comment : Command.ofChar? '\n' = none := rfl
        simp [scan, newline, comment, ih]
      · cases found : Command.ofChar? char <;> simp [scan, newline, found, ih]

theorem ofSource_map_command (source : String) :
    (ofSource source).map command = Command.ofSource source :=
  scan_map_command 1 0 source.toList

end Token

end TapeTree
