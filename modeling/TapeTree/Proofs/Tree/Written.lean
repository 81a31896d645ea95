import TapeTree.Tree.Build
import TapeTree.Tree.Source

/-! Written forms: which trees have one, and how the brackets stand in it. -/

namespace TapeTree

namespace Command

@[simp] theorem depth_nil : depth [] = 0 := rfl

theorem depth_append (first second : List Command) :
    depth (first ++ second) = depth first + depth second := by
  simp only [depth, List.count_append]
  omega

theorem depth_cons (command : Command) (rest : List Command) :
    depth (command :: rest) = depth [command] + depth rest :=
  depth_append [command] rest

@[simp] theorem depth_openLoop : depth [.openLoop] = 1 := rfl

@[simp] theorem depth_closeLoop : depth [.closeLoop] = -1 := rfl

theorem depth_of_instruction {command : Command} {node : Tree}
    (found : Tree.instruction? command = some node) : depth [command] = 0 := by
  cases command <;> first | rfl | cases found

theorem forall_start_cons {property : List Command → Prop} {command : Command}
    {rest : List Command} :
    (∀ start, start <+: command :: rest → property start) ↔
      property [] ∧ ∀ start, start <+: rest → property (command :: start) := by
  constructor
  · intro every
    exact ⟨every [] List.nil_prefix, fun start within =>
      every (command :: start) ((List.prefix_cons_inj command).mpr within)⟩
  · rintro ⟨none, others⟩ start within
    rcases List.prefix_cons_iff.mp within with rfl | ⟨rest, rfl, further⟩
    · exact none
    · exact others rest further

theorem start_append {first second start : List Command} (within : start <+: first ++ second) :
    start <+: first ∨ ∃ further, start = first ++ further ∧ further <+: second := by
  rcases List.prefix_or_prefix_of_prefix within (List.prefix_append first second) with
    shorter | ⟨further, rfl⟩
  · exact Or.inl shorter
  · exact Or.inr ⟨further, rfl, (List.prefix_append_right_inj first).mp within⟩

theorem forall_start_append {property : List Command → Prop} {first second : List Command} :
    (∀ start, start <+: first ++ second → property start) ↔
      (∀ start, start <+: first → property start) ∧
        ∀ start, start <+: second → property (first ++ start) := by
  constructor
  · intro every
    constructor
    · intro start within
      exact every start (within.trans (List.prefix_append first second))
    · intro start within
      exact every (first ++ start) ((List.prefix_append_right_inj first).mpr within)
  · rintro ⟨before, behind⟩ start within
    rcases start_append within with shorter | ⟨further, rfl, rest⟩
    · exact before start shorter
    · exact behind further rest

theorem NestedWithin.mono {most more : Nat} {commands : List Command}
    (nested : NestedWithin most commands) (looser : most ≤ more) :
    NestedWithin more commands := by
  intro start within
  have deep := nested start within
  omega

end Command

namespace Tree

open Command

mutual

def IsRawNode : Tree → Prop
  | .move distance => distance = 1 ∨ distance = -1
  | .add amount => amount = 1 ∨ amount = cellSize - 1
  | .print => True
  | .read => True
  | .loop body => IsRaw body
  | _ => False

/-- A block of such nodes: the trees of source texts. -/
def IsRaw : Tree → Prop
  | .block children => IsRawAll children
  | _ => False

def IsRawAll : List Tree → Prop
  | [] => True
  | node :: rest => IsRawNode node ∧ IsRawAll rest

end

mutual

def nesting : Tree → Nat
  | .block children => nestingAll children
  | .loop body => nesting body + 1
  | _ => 0

def nestingAll : List Tree → Nat
  | [] => 0
  | node :: rest => max (nesting node) (nestingAll rest)

end

theorem childrenCommands?_cons {node : Tree} {rest : List Tree} {written : List Command} :
    childrenCommands? (node :: rest) = some written ↔
      ∃ first others, nodeCommands? node = some first ∧ childrenCommands? rest = some others ∧
        written = first ++ others := by
  rw [childrenCommands?]
  cases nodeCommands? node <;> cases childrenCommands? rest <;> simp [eq_comm]

theorem nodeCommands?_loop {body : Tree} {written : List Command} :
    nodeCommands? (.loop body) = some written ↔
      ∃ inner, commands? body = some inner ∧ written = .openLoop :: (inner ++ [.closeLoop]) := by
  rw [nodeCommands?, Option.map_eq_some_iff]
  constructor <;>
  · rintro ⟨inner, found, same⟩
    exact ⟨inner, found, same.symm⟩

theorem childrenCommands?_append {nodes others : List Tree} {first second : List Command}
    (before : childrenCommands? nodes = some first)
    (behind : childrenCommands? others = some second) :
    childrenCommands? (nodes ++ others) = some (first ++ second) := by
  induction nodes generalizing first with
  | nil =>
      rw [childrenCommands?, Option.some.injEq] at before
      rw [← before]
      exact behind
  | cons node rest ih =>
      obtain ⟨code, further, written, restWritten, rfl⟩ := childrenCommands?_cons.mp before
      rw [List.cons_append, List.append_assoc]
      exact childrenCommands?_cons.mpr ⟨code, _, written, ih restWritten, rfl⟩

theorem nodeCommands?_instruction {command : Command} {node : Tree}
    (found : instruction? command = some node) : nodeCommands? node = some [command] := by
  cases command <;> cases found <;> simp [nodeCommands?, cellSize]

theorem instruction?_written {node : Tree} {code : List Command}
    (written : nodeCommands? node = some code) (noLoop : ∀ body, node ≠ .loop body) :
    ∃ command, code = [command] ∧ instruction? command = some node := by
  cases node with
  | move distance =>
      simp only [nodeCommands?] at written
      split at written
      · rename_i forth
        exact ⟨.right, by simpa using written.symm, by rw [forth, instruction?]⟩
      · split at written
        · rename_i back
          exact ⟨.left, by simpa using written.symm, by rw [back, instruction?]⟩
        · cases written
  | add amount =>
      simp only [nodeCommands?] at written
      split at written
      · rename_i up
        exact ⟨.increment, by simpa using written.symm, by rw [up, instruction?]⟩
      · split at written
        · rename_i down
          exact ⟨.decrement, by simpa using written.symm, by rw [down, instruction?]⟩
        · cases written
  | print => exact ⟨.print, by simpa [nodeCommands?] using written.symm, rfl⟩
  | read => exact ⟨.read, by simpa [nodeCommands?] using written.symm, rfl⟩
  | loop body => exact absurd rfl (noLoop body)
  | set | block | addTo | hole => simp [nodeCommands?] at written

mutual

theorem isRawNode_iff (node : Tree) :
    node.IsRawNode ↔ ∃ written, nodeCommands? node = some written := by
  match node with
  | .move distance =>
      by_cases forth : distance = 1 <;> by_cases back : distance = -1 <;>
        simp [IsRawNode, nodeCommands?, forth, back]
  | .add amount =>
      by_cases up : amount = 1 <;> by_cases down : amount = 255 <;>
        simp [IsRawNode, nodeCommands?, up, down, cellSize]
  | .print | .read => simp [IsRawNode, nodeCommands?]
  | .loop body =>
      rw [IsRawNode, isRaw_iff body]
      constructor
      · rintro ⟨inner, written⟩
        exact ⟨_, nodeCommands?_loop.mpr ⟨inner, written, rfl⟩⟩
      · rintro ⟨_, around⟩
        obtain ⟨inner, written, _⟩ := nodeCommands?_loop.mp around
        exact ⟨inner, written⟩
  | .set _ | .block _ | .addTo _ | .hole _ => simp [IsRawNode, nodeCommands?]

theorem isRaw_iff (tree : Tree) : tree.IsRaw ↔ ∃ written, commands? tree = some written := by
  match tree with
  | .block children =>
      rw [IsRaw, commands?]
      exact isRawAll_iff children
  | .move _ | .add _ | .set _ | .print | .read | .loop _ | .addTo _ | .hole _ =>
      simp [IsRaw, commands?]

theorem isRawAll_iff (nodes : List Tree) :
    IsRawAll nodes ↔ ∃ written, childrenCommands? nodes = some written := by
  match nodes with
  | [] => simp [IsRawAll, childrenCommands?]
  | node :: rest =>
      rw [IsRawAll, isRawNode_iff node, isRawAll_iff rest]
      constructor
      · rintro ⟨⟨first, written⟩, others, restWritten⟩
        exact ⟨_, childrenCommands?_cons.mpr ⟨first, others, written, restWritten, rfl⟩⟩
      · rintro ⟨_, both⟩
        obtain ⟨first, others, written, restWritten, _⟩ := childrenCommands?_cons.mp both
        exact ⟨⟨first, written⟩, others, restWritten⟩

end

/-- What holds of single instructions, and is kept by writing one piece after another and by
putting a loop around a piece. -/
structure Assembled (motive : List Command → Prop) : Prop where
  nil : motive []
  single : ∀ {command : Command} {node : Tree}, instruction? command = some node →
    motive [command]
  append : ∀ {first second : List Command}, motive first → motive second →
    motive (first ++ second)
  loop : ∀ {inner : List Command}, motive inner → motive (.openLoop :: (inner ++ [.closeLoop]))

namespace Assembled

variable {motive : List Command → Prop}

mutual

theorem node (assembled : Assembled motive) (node : Tree) {code : List Command}
    (written : nodeCommands? node = some code) : motive code := by
  match node with
  | .loop body =>
      obtain ⟨inner, insideWritten, rfl⟩ := nodeCommands?_loop.mp written
      exact assembled.loop (assembled.tree body insideWritten)
  | .move _ | .add _ | .set _ | .print | .read | .addTo _ | .hole _ | .block _ =>
      obtain ⟨command, rfl, found⟩ := instruction?_written written (by simp)
      exact assembled.single found

theorem tree (assembled : Assembled motive) (tree : Tree) {code : List Command}
    (written : commands? tree = some code) : motive code := by
  match tree with
  | .block children =>
      rw [commands?] at written
      exact assembled.children children written
  | .move _ | .add _ | .set _ | .print | .read | .loop _ | .addTo _ | .hole _ =>
      simp [commands?] at written

theorem children (assembled : Assembled motive) (nodes : List Tree) {code : List Command}
    (written : childrenCommands? nodes = some code) : motive code := by
  match nodes with
  | [] =>
      rw [childrenCommands?, Option.some.injEq] at written
      rw [← written]
      exact assembled.nil
  | node :: rest =>
      obtain ⟨first, others, firstWritten, restWritten, rfl⟩ := childrenCommands?_cons.mp written
      exact assembled.append (assembled.node node firstWritten)
        (assembled.children rest restWritten)

end

end Assembled

theorem depth_assembled : Assembled fun code => depth code = 0 where
  nil := rfl
  single := depth_of_instruction
  append := fun first second => by rw [depth_append, first, second]; rfl
  loop := fun inner => by rw [depth_cons, depth_append, inner]; rfl

mutual

theorem depth_node_le (node : Tree) {code start : List Command}
    (written : nodeCommands? node = some code) (within : start <+: code) :
    depth start ≤ node.nesting := by
  match node with
  | .loop body =>
      obtain ⟨inner, insideWritten, rfl⟩ := nodeCommands?_loop.mp written
      have balanced := depth_assembled.tree body insideWritten
      rw [nesting]
      rcases List.prefix_cons_iff.mp within with rfl | ⟨further, rfl, inside⟩
      · rw [depth_nil]
        omega
      · rw [depth_cons, depth_openLoop]
        rcases start_append inside with shorter | ⟨last, rfl, closing⟩
        · have deep := depth_tree_le body insideWritten shorter
          omega
        · rw [depth_append, balanced]
          rcases List.prefix_cons_iff.mp closing with rfl | ⟨rest, rfl, none⟩
          · rw [depth_nil]
            omega
          · rw [List.prefix_nil.mp none, depth_closeLoop]
            omega
  | .move _ | .add _ | .set _ | .print | .read | .addTo _ | .hole _ | .block _ =>
      obtain ⟨command, rfl, found⟩ := instruction?_written written (by simp)
      have flat := depth_of_instruction found
      rcases List.prefix_cons_iff.mp within with rfl | ⟨rest, rfl, none⟩
      · rw [depth_nil]
        omega
      · rw [List.prefix_nil.mp none, flat]
        omega

theorem depth_tree_le (tree : Tree) {code start : List Command}
    (written : commands? tree = some code) (within : start <+: code) :
    depth start ≤ tree.nesting := by
  match tree with
  | .block children =>
      rw [commands?] at written
      rw [nesting]
      exact depth_children_le children written within
  | .move _ | .add _ | .set _ | .print | .read | .loop _ | .addTo _ | .hole _ =>
      simp [commands?] at written

theorem depth_children_le (nodes : List Tree) {code start : List Command}
    (written : childrenCommands? nodes = some code) (within : start <+: code) :
    depth start ≤ nestingAll nodes := by
  match nodes with
  | [] =>
      rw [childrenCommands?, Option.some.injEq] at written
      rw [← written] at within
      rw [List.prefix_nil.mp within, nestingAll, depth_nil]
      omega
  | node :: rest =>
      obtain ⟨first, others, firstWritten, restWritten, rfl⟩ := childrenCommands?_cons.mp written
      rw [nestingAll]
      rcases start_append within with shorter | ⟨further, rfl, behind⟩
      · have deep := depth_node_le node firstWritten shorter
        omega
      · have deep := depth_children_le rest restWritten behind
        rw [depth_append, depth_assembled.node node firstWritten]
        omega

end

theorem nestedWithin_nesting {tree : Tree} {written : List Command}
    (found : commands? tree = some written) : NestedWithin tree.nesting written :=
  fun _ within => depth_tree_le tree found within

end Tree

end TapeTree
