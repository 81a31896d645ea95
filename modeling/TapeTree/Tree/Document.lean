import TapeTree.Document
import TapeTree.Tree

/-! Trees as documents: an instruction with a number is an entry under its tag. -/

namespace TapeTree.Tree

mutual

def toDocument : Tree → Document
  | .move distance => .entry .movePointer (.number distance)
  | .add amount => .entry .addValue (.number amount)
  | .set value => .entry .setValue (.number value)
  | .print => .word .print
  | .read => .word .read
  | .block children => .entry .list (.list (toDocuments children))
  | .loop body => .entry .jump (toDocument body)
  | .addTo offset => .entry .addTo (.number offset)

def toDocuments : List Tree → List Document
  | [] => []
  | node :: rest => toDocument node :: toDocuments rest

end

mutual

def ofDocument? : Document → Option Tree
  | .entry .movePointer (.number distance) => some (.move distance)
  | .entry .addValue (.number amount) => some (.add amount)
  | .entry .setValue (.number value) => some (.set value)
  | .word .print => some .print
  | .word .read => some .read
  | .entry .list (.list items) => (ofDocuments? items).map .block
  | .entry .jump body => (ofDocument? body).map .loop
  | .entry .addTo (.number offset) => some (.addTo offset)
  | _ => none

def ofDocuments? : List Document → Option (List Tree)
  | [] => some []
  | item :: rest =>
      match ofDocument? item, ofDocuments? rest with
      | some node, some others => some (node :: others)
      | _, _ => none

end

def text (layout : Layout) (tree : Tree) : String :=
  (toDocument tree).text layout

end TapeTree.Tree
