import TapeTree.Command
import TapeTree.Tree

/-! Trees written back as commands. Only the trees of source texts have a written form: blocks of
single instructions and of loops over such blocks. -/

namespace TapeTree

def Command.depth (commands : List Command) : Int :=
  commands.count .openLoop - commands.count .closeLoop

/-- At no point of the sequence are more than `most` loops open. -/
def Command.NestedWithin (most : Nat) (commands : List Command) : Prop :=
  ∀ start, start <+: commands → depth start ≤ most

namespace Tree

mutual

def nodeCommands? : Tree → Option (List Command)
  | .move distance =>
      if distance = 1 then some [.right]
      else if distance = -1 then some [.left]
      else none
  | .add amount =>
      if amount = 1 then some [.increment]
      else if amount = cellSize - 1 then some [.decrement]
      else none
  | .print => some [.print]
  | .read => some [.read]
  | .loop body => (commands? body).map fun inner => .openLoop :: (inner ++ [.closeLoop])
  | _ => none

/-- The commands that write a block, if parsing can make it. -/
def commands? : Tree → Option (List Command)
  | .block children => childrenCommands? children
  | _ => none

def childrenCommands? : List Tree → Option (List Command)
  | [] => some []
  | node :: rest =>
      match nodeCommands? node, childrenCommands? rest with
      | some first, some others => some (first ++ others)
      | _, _ => none

end

end Tree

end TapeTree
