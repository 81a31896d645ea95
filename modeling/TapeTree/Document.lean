/-! The documents that trees are written as, and their JSON text in every layout. -/

namespace TapeTree

inductive Tag where
  | movePointer
  | addValue
  | setValue
  | print
  | read
  | list
  | jump
  | addTo
deriving DecidableEq

def Tag.name : Tag → String
  | movePointer => "move_pointer"
  | addValue => "add_value"
  | setValue => "set_value"
  | print => "print"
  | read => "read"
  | list => "list"
  | jump => "jump"
  | addTo => "add_to"

inductive Document where
  | number (value : Int)
  | word (tag : Tag)
  | list (items : List Document)
  | entry (tag : Tag) (value : Document)

/-- Layouts: on one line, or with each element on a line of its own, indented by so many blanks
for each level. A negative indent counts as none. -/
inductive Layout where
  | line
  | indented (blanks : Int)
deriving DecidableEq

namespace Layout

def lineBreak (layout : Layout) (depth : Nat) (rest : List Char) : List Char :=
  match layout with
  | line => rest
  | indented blanks => '\n' :: (List.replicate (blanks.toNat * depth) ' ' ++ rest)

def between (layout : Layout) (depth : Nat) (rest : List Char) : List Char :=
  match layout with
  | line => ' ' :: rest
  | indented _ => layout.lineBreak depth rest

end Layout

namespace Document

def quoted (tag : Tag) (rest : List Char) : List Char :=
  '\x22' :: (tag.name.toList ++ '\x22' :: rest)

mutual

def write (layout : Layout) (depth : Nat) : Document → List Char → List Char
  | .number value, rest => (toString value).toList ++ rest
  | .word tag, rest => quoted tag rest
  | .list items, rest =>
      match items with
      | [] => '[' :: ']' :: rest
      | first :: others =>
          '[' :: layout.lineBreak (depth + 1)
            (write layout (depth + 1) first (writeOthers layout depth others rest))
  | .entry tag value, rest =>
      '\x7b' :: layout.lineBreak (depth + 1)
        (quoted tag (':' :: ' ' ::
          write layout (depth + 1) value (layout.lineBreak depth ('\x7d' :: rest))))

def writeOthers (layout : Layout) (depth : Nat) : List Document → List Char → List Char
  | [], rest => layout.lineBreak depth (']' :: rest)
  | item :: others, rest =>
      ',' :: layout.between (depth + 1)
        (write layout (depth + 1) item (writeOthers layout depth others rest))

end

def text (layout : Layout) (document : Document) : String :=
  String.ofList (write layout 0 document [])

end Document

end TapeTree
