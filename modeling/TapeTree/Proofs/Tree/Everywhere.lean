import TapeTree.Parse

/-! Properties of all nodes of a tree, at every depth, and trees of source texts that have them. -/

namespace TapeTree

theorem inside_cell (value : Int) : 0 ≤ value % cellSize ∧ value % cellSize < cellSize :=
  ⟨Int.emod_nonneg value (by decide), Int.emod_lt_of_pos value (by decide)⟩

end TapeTree

namespace TapeTree.Node

variable {Hole : Type}

mutual

def Everywhere (property : Node Hole → Prop) : Node Hole → Prop
  | .block children => property (.block children) ∧ EverywhereAll property children
  | .loop body => property (.loop body) ∧ Everywhere property body
  | .move distance => property (.move distance)
  | .add amount => property (.add amount)
  | .set value => property (.set value)
  | .print => property .print
  | .read => property .read
  | .addTo offset => property (.addTo offset)
  | .hole mark => property (.hole mark)

def EverywhereAll (property : Node Hole → Prop) : List (Node Hole) → Prop
  | [] => True
  | node :: rest => Everywhere property node ∧ EverywhereAll property rest

end

def IsInstruction : Node Hole → Prop
  | .block _ | .loop _ => False
  | _ => True

def SetsByte : Node Hole → Prop
  | .set value => 0 ≤ value ∧ value < cellSize
  | _ => True

def SetsBytes (tree : Node Hole) : Prop :=
  tree.Everywhere SetsByte

theorem everywhereAll_iff (property : Node Hole → Prop) (nodes : List (Node Hole)) :
    EverywhereAll property nodes ↔ ∀ node ∈ nodes, node.Everywhere property := by
  induction nodes with
  | nil => simp [EverywhereAll]
  | cons node rest ih => simp [EverywhereAll, ih]

theorem everywhereAll_append (property : Node Hole → Prop) (nodes others : List (Node Hole)) :
    EverywhereAll property (nodes ++ others) ↔
      EverywhereAll property nodes ∧ EverywhereAll property others := by
  simp only [everywhereAll_iff, List.forall_mem_append]

theorem Everywhere.here {property : Node Hole → Prop} {node : Node Hole}
    (everywhere : node.Everywhere property) : property node := by
  cases node <;> simp only [Everywhere] at everywhere
  case block => exact everywhere.1
  case loop => exact everywhere.1
  all_goals exact everywhere

theorem everywhere_iff_of_isInstruction {property : Node Hole → Prop} {node : Node Hole}
    (instruction : node.IsInstruction) : node.Everywhere property ↔ property node := by
  cases node <;> simp_all [Everywhere, IsInstruction]

mutual

theorem everywhere_of_forall {property : Node Hole → Prop} (always : ∀ node, property node) :
    ∀ node : Node Hole, node.Everywhere property
  | .block children => ⟨always _, everywhereAll_of_forall always children⟩
  | .loop body => ⟨always _, everywhere_of_forall always body⟩
  | .move _ | .add _ | .set _ | .print | .read | .addTo _ | .hole _ => always _

theorem everywhereAll_of_forall {property : Node Hole → Prop} (always : ∀ node, property node) :
    ∀ nodes : List (Node Hole), EverywhereAll property nodes
  | [] => trivial
  | node :: rest => ⟨everywhere_of_forall always node, everywhereAll_of_forall always rest⟩

end

mutual

theorem Everywhere.mono {property weaker : Node Hole → Prop}
    (implied : ∀ node, property node → weaker node) :
    ∀ node : Node Hole, node.Everywhere property → node.Everywhere weaker
  | .block children, everywhere =>
      ⟨implied _ everywhere.1, EverywhereAll.mono implied children everywhere.2⟩
  | .loop body, everywhere =>
      ⟨implied _ everywhere.1, Everywhere.mono implied body everywhere.2⟩
  | .move _, holds | .add _, holds | .set _, holds | .print, holds | .read, holds
  | .addTo _, holds | .hole _, holds => implied _ holds

theorem EverywhereAll.mono {property weaker : Node Hole → Prop}
    (implied : ∀ node, property node → weaker node) :
    ∀ nodes : List (Node Hole), EverywhereAll property nodes → EverywhereAll weaker nodes
  | [], _ => trivial
  | node :: rest, everywhere =>
      ⟨Everywhere.mono implied node everywhere.1, EverywhereAll.mono implied rest everywhere.2⟩

end

mutual

theorem Everywhere.and {property other : Node Hole → Prop} :
    ∀ node : Node Hole, node.Everywhere property → node.Everywhere other →
      node.Everywhere fun node => property node ∧ other node
  | .block children, left, right =>
      ⟨⟨left.1, right.1⟩, EverywhereAll.and children left.2 right.2⟩
  | .loop body, left, right => ⟨⟨left.1, right.1⟩, Everywhere.and body left.2 right.2⟩
  | .move _, left, right | .add _, left, right | .set _, left, right | .print, left, right
  | .read, left, right | .addTo _, left, right | .hole _, left, right => ⟨left, right⟩

theorem EverywhereAll.and {property other : Node Hole → Prop} :
    ∀ nodes : List (Node Hole), EverywhereAll property nodes → EverywhereAll other nodes →
      EverywhereAll (fun node => property node ∧ other node) nodes
  | [], _, _ => trivial
  | node :: rest, left, right =>
      ⟨Everywhere.and node left.1 right.1, EverywhereAll.and rest left.2 right.2⟩

end

end TapeTree.Node

namespace TapeTree.Tree
open Node

/-- What holds of every node that commands make. -/
structure FromCommands (property : Tree → Prop) : Prop where
  single : ∀ {command node}, instruction? command = some node → property node
  block : ∀ children, property (.block children)
  loop : ∀ body, property (.loop body)

namespace FromCommands

variable {property : Tree → Prop}

theorem instruction_everywhere (made : FromCommands property) {command : Command} {node : Tree}
    (found : instruction? command = some node) : node.Everywhere property := by
  have holds := made.single found
  cases command <;> cases found <;> exact holds

theorem blockOfReverse_everywhere (made : FromCommands property) {nodes : List Tree}
    (everywhere : EverywhereAll property nodes) :
    (blockOfReverse nodes).Everywhere property := by
  refine ⟨made.block _, (everywhereAll_iff property _).mpr ?_⟩
  intro node member
  exact (everywhereAll_iff property nodes).mp everywhere node (List.mem_reverse.mp member)

theorem buildBlock_everywhere (made : FromCommands property) (mode : BuildMode) (room : Nat)
    (before : List Tree) (tokens : List Token) (inside : EverywhereAll property before)
    {tree : Tree} (built : (buildBlock mode room before tokens).val.result = .ok tree) :
    tree.Everywhere property := by
  fun_induction buildBlock mode room before tokens generalizing tree with
  | case1 | case4 | case5 | case8 => cases built
  | case2 | case7 =>
      cases built
      exact made.blockOfReverse_everywhere inside
  | case3 _ _ _ _ _ _ _ found _ ih => exact ih ⟨made.instruction_everywhere found, inside⟩ built
  | case6 _ _ _ _ _ _ _ _ body _ _ inner _ _ ihBody ih =>
      rw [inner] at ihBody
      exact ih ⟨⟨made.loop body, ihBody trivial rfl⟩, inside⟩ built

/-- What holds of every node that commands make holds everywhere in the tree of a source text. -/
theorem parse_everywhere (made : FromCommands property) {strict : Bool} {source : String}
    {tree : Tree} (parsed : parse strict source = .ok tree) : tree.Everywhere property := by
  rw [parse] at parsed
  cases built : (build { strict } (Token.ofSource source)).result with
  | error error =>
      simp only [built] at parsed
      cases parsed
  | ok whole =>
      simp only [built] at parsed
      cases parsed
      exact made.buildBlock_everywhere _ _ [] _ trivial built

end FromCommands

theorem setsByte_fromCommands : FromCommands SetsByte where
  single := by
    intro command node found
    cases command <;> cases found <;> trivial
  block := fun _ => trivial
  loop := fun _ => trivial

end TapeTree.Tree
