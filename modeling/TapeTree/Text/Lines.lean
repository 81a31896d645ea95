/-! Texts as lines, and numbers aligned in columns. -/

namespace TapeTree.Text

/-- The lines of a text. A line feed stands between two lines, so an empty text is one line. -/
def lines (text : List Char) : List (List Char) :=
  text.foldr
    (fun char after => if char = '\n' then [] :: after else after.modifyHead (char :: ·)) [[]]

def alignRight (width : Nat) (number : Int) : String :=
  let digits := toString number
  String.ofList (List.replicate (width - digits.length) ' ') ++ digits

end TapeTree.Text
