/-! The eight commands of the tape language and the characters that write them.
Every other character of a source text is comment. -/

namespace TapeTree

inductive Command where
  | right
  | left
  | increment
  | decrement
  | print
  | read
  | openLoop
  | closeLoop
deriving DecidableEq

namespace Command

def symbol : Command → Char
  | right => '>'
  | left => '<'
  | increment => '+'
  | decrement => '-'
  | print => '.'
  | read => ','
  | openLoop => '['
  | closeLoop => ']'

def ofChar? : Char → Option Command
  | '>' => some right
  | '<' => some left
  | '+' => some increment
  | '-' => some decrement
  | '.' => some print
  | ',' => some read
  | '[' => some openLoop
  | ']' => some closeLoop
  | _ => none

/-- A text names a command only if it is one character long. -/
def ofString? (text : String) : Option Command :=
  match text.toList with
  | [char] => ofChar? char
  | _ => none

theorem ofChar?_symbol (command : Command) : ofChar? command.symbol = some command := by
  cases command <;> rfl

theorem symbol_eq_of_ofChar? {char : Char} {command : Command}
    (named : ofChar? char = some command) : command.symbol = char := by
  unfold ofChar? at named
  split at named <;> cases named <;> rfl

def ofSource (source : String) : List Command :=
  source.toList.filterMap ofChar?

def toSource (commands : List Command) : String :=
  String.ofList (commands.map symbol)

def strip (source : String) : String :=
  toSource (ofSource source)

theorem ofSource_toSource (commands : List Command) :
    ofSource (toSource commands) = commands := by
  simp only [ofSource, toSource, String.toList_ofList]
  induction commands with
  | nil => rfl
  | cons command rest ih => simp [ofChar?_symbol, ih]

end Command

end TapeTree
