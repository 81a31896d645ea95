import TapeTree.Proofs.Machine.Tape
import TapeTree.Proofs.Optimize.Settling

/-! Nodes that add the current cell to another one. Passes put them only before a node that
overwrites the current cell, one or two at a time, and no later pass moves or removes that node. -/

namespace TapeTree

namespace Node

variable {Hole : Type} {erases : Prop}

def IsAddTo : Node Hole → Prop
  | .addTo _ => True
  | _ => False

/-! Sequences are read from the front, with what has come directly before. -/

/-- How many nodes that add to a cell stand directly before a place. -/
inductive Streak where
  | none
  | one (offset : Int)
  | two

def Streak.behind : Streak → Node Hole → Option Streak
  | _, .set _ => some none
  | none, .addTo offset => if offset = 0 then Option.none else some (one offset)
  | one before, .addTo offset => if offset = 0 ∨ offset = before then Option.none else some two
  | none, _ => some none
  | _, _ => Option.none

def Closed (nodes : List (Node Hole)) : Prop :=
  nodes.foldlM Streak.behind .none = some .none

def Sheltered : Node Hole → Prop
  | .block children => Closed children
  | .loop body => Closed [body]
  | _ => True

def IsPlain : Node Hole → Prop
  | .addTo _ | .set _ => False
  | _ => True

theorem isPlain_of_isIdle {node : Node Hole} (idle : node.isIdle) : node.IsPlain := by
  cases node with
  | move | add => trivial
  | _ => cases idle

theorem sheltered_of_isInstruction {node : Node Hole} (instruction : node.IsInstruction) :
    node.Sheltered := by
  cases node with
  | block | loop => cases instruction
  | _ => trivial

theorem behind_plain {node : Node Hole} (plain : node.IsPlain) {before after : Streak} :
    before.behind node = some after ↔ before = .none ∧ after = .none := by
  cases node with
  | addTo => cases plain
  | set => cases plain
  | _ => cases before <;> simp [Streak.behind, eq_comm]

theorem foldlM_singleton (before : Streak) (node : Node Hole) :
    [node].foldlM Streak.behind before = before.behind node := by
  simp [List.foldlM]

theorem foldlM_behind_cons {node : Node Hole} {rest : List (Node Hole)} {before after : Streak} :
    (node :: rest).foldlM Streak.behind before = some after ↔
      ∃ middle, before.behind node = some middle ∧
        rest.foldlM Streak.behind middle = some after := by
  rw [List.foldlM_cons, Option.bind_eq_bind, Option.bind_eq_some_iff]

theorem foldlM_behind_append {front back : List (Node Hole)} {before after : Streak} :
    (front ++ back).foldlM Streak.behind before = some after ↔
      ∃ middle, front.foldlM Streak.behind before = some middle ∧
        back.foldlM Streak.behind middle = some after := by
  rw [List.foldlM_append, Option.bind_eq_bind, Option.bind_eq_some_iff]

def KeepsStreaks (nodes others : List (Node Hole)) : Prop :=
  ∀ before after, nodes.foldlM Streak.behind before = some after →
    others.foldlM Streak.behind before = some after

theorem KeepsStreaks.of_plain {node : Node Hole} {others : List (Node Hole)}
    (plain : node.IsPlain) (closed : Closed others) : KeepsStreaks [node] others := by
  intro before after led
  rw [foldlM_singleton, behind_plain plain] at led
  obtain ⟨rfl, rfl⟩ := led
  exact closed

theorem closed_plain {node : Node Hole} (plain : node.IsPlain) : Closed [node] := by
  rw [Closed, foldlM_singleton, behind_plain plain]
  exact ⟨rfl, rfl⟩

theorem merged_keepsStreaks {first second merged : Node Hole}
    (found : merge? first second = some merged) : KeepsStreaks [first, second] [merged] := by
  intro before after
  rcases merge?_eq_some found with
    ⟨_, _, rfl, rfl, rfl⟩ | ⟨_, _, rfl, rfl, rfl⟩ | ⟨_, _, rfl, rfl, rfl⟩ |
    ⟨_, _, rfl, rfl, rfl⟩ <;>
  cases before <;> simp [Streak.behind]

theorem transferred_sheltered {children : List (Node Hole)} {stand : Node Hole}
    (found : transfer? children = some stand) (active : ∀ child ∈ children, child.Active) :
    stand.IsPlain ∧ stand.Everywhere Sheltered := by
  rcases transfer?_eq_some_of_active found active with
    ⟨out, back, rfl, away, homeward, home, rfl⟩ |
    ⟨out, further, back, rfl, away, apart, homeward, home, rfl⟩
  · refine ⟨trivial, ?_, trivial, trivial, trivial⟩
    simp [Sheltered, Closed, Streak.behind, away]
  · have farther : out + further ≠ 0 := by omega
    have elsewhere : out + further ≠ out := by omega
    refine ⟨trivial, ?_, trivial, trivial, trivial, trivial⟩
    simp [Sheltered, Closed, Streak.behind, away, farther, elsewhere]

theorem Rewrites.keepsStreaks {nodes others : List (Node Hole)}
    (rewrites : Rewrites erases nodes others) (sheltered : EverywhereAll Sheltered nodes) :
    EverywhereAll Sheltered others ∧ KeepsStreaks nodes others := by
  induction rewrites with
  | refl => exact ⟨sheltered, fun _ _ => id⟩
  | trans _ _ left right =>
      obtain ⟨middle, first⟩ := left sheltered
      obtain ⟨last, second⟩ := right middle
      exact ⟨last, fun before after led => second before after (first before after led)⟩
  | append _ _ front back =>
      rw [everywhereAll_append] at sheltered
      obtain ⟨first, keepsFirst⟩ := front sheltered.1
      obtain ⟨second, keepsSecond⟩ := back sheltered.2
      refine ⟨(everywhereAll_append _ _ _).mpr ⟨first, second⟩, fun before after led => ?_⟩
      obtain ⟨middle, here, there⟩ := foldlM_behind_append.mp led
      exact foldlM_behind_append.mpr
        ⟨middle, keepsFirst before middle here, keepsSecond middle after there⟩
  | block _ inside =>
      obtain ⟨within, keeps⟩ := inside sheltered.1.2
      have closed := keeps .none .none sheltered.1.1
      exact ⟨⟨⟨closed, within⟩, trivial⟩, .of_plain trivial (closed_plain trivial)⟩
  | loop _ inside =>
      obtain ⟨within, keeps⟩ := inside ⟨sheltered.1.2, trivial⟩
      have closed := keeps .none .none sheltered.1.1
      exact ⟨⟨⟨closed, within.1⟩, trivial⟩, .of_plain trivial (closed_plain trivial)⟩
  | unblock => exact ⟨sheltered.1.2, .of_plain trivial sheltered.1.1⟩
  | idle idle => exact ⟨trivial, .of_plain (isPlain_of_isIdle idle) rfl⟩
  | hole => exact ⟨trivial, .of_plain trivial rfl⟩
  | merged found =>
      have single := merge?_isInstruction found
      have here := (everywhere_iff_of_isInstruction single).mpr (sheltered_of_isInstruction single)
      exact ⟨⟨here, trivial⟩, merged_keepsStreaks found⟩
  | erased => exact ⟨trivial, .of_plain trivial rfl⟩
  | cleared => exact ⟨⟨trivial, trivial⟩, .of_plain trivial rfl⟩
  | transferred found active =>
      obtain ⟨plain, within⟩ := transferred_sheltered found active
      exact ⟨⟨within, trivial⟩, .of_plain trivial (closed_plain plain)⟩

def ClosesStreaks (tree : Node Hole) : Prop :=
  Closed [tree] ∧ tree.Everywhere Sheltered

theorem pass_closesStreaks {tree : Node Hole} (closes : tree.ClosesStreaks) :
    (pass tree).ClosesStreaks := by
  rcases pass_rewrites tree with ⟨_, nothing⟩ | rewrites
  · rw [nothing]
    exact ⟨rfl, rfl, trivial⟩
  · obtain ⟨within, keeps⟩ := rewrites.keepsStreaks ⟨closes.2, trivial⟩
    exact ⟨keeps .none .none closes.1, within.1⟩

theorem afterPasses_closesStreaks (count : Nat) {tree : Node Hole}
    (closes : tree.ClosesStreaks) : (afterPasses count tree).ClosesStreaks := by
  induction count generalizing tree with
  | zero => exact closes
  | succ count ih => exact ih (pass_closesStreaks closes)

/-! Trees of source texts have no such nodes. -/

theorem closed_of_plain {nodes : List (Node Hole)} (plain : ∀ node ∈ nodes, node.IsPlain) :
    Closed nodes := by
  induction nodes with
  | nil => rfl
  | cons node rest ih =>
      obtain ⟨first, others⟩ := List.forall_mem_cons.mp plain
      exact foldlM_behind_cons.mpr ⟨.none, (behind_plain first).mpr ⟨rfl, rfl⟩, ih others⟩

mutual

theorem sheltered_of_plain (tree : Node Hole) (plain : tree.Everywhere IsPlain) :
    tree.Everywhere Sheltered := by
  match tree with
  | .block children =>
      refine ⟨closed_of_plain fun node member => ?_, shelteredAll_of_plain children plain.2⟩
      exact ((everywhereAll_iff IsPlain children).mp plain.2 node member).here
  | .loop body => exact ⟨closed_plain plain.2.here, sheltered_of_plain body plain.2⟩
  | .move _ | .add _ | .set _ | .print | .read | .addTo _ | .hole _ => trivial

theorem shelteredAll_of_plain (nodes : List (Node Hole)) (plain : EverywhereAll IsPlain nodes) :
    EverywhereAll Sheltered nodes := by
  match nodes with
  | [] => trivial
  | node :: rest => exact ⟨sheltered_of_plain node plain.1, shelteredAll_of_plain rest plain.2⟩

end

/-! What closed streaks look like. -/

/-- Behind a node that adds the current cell at an offset, the current cell is overwritten, at once
or after one more such node with another offset. -/
def Released (offset : Int) (rest : List (Node Hole)) : Prop :=
  (∃ value others, rest = .set value :: others) ∨
    ∃ other value others, rest = .addTo other :: .set value :: others ∧ other ≠ offset

def WellPlaced : Node Hole → Prop
  | .block children => ∀ front offset back, children = front ++ .addTo offset :: back →
      offset ≠ 0 ∧ Released offset back
  | .loop body => ¬ IsAddTo body
  | _ => True

def Undisturbed : Node Hole → Prop
  | .block children =>
      (∀ front first second third back,
        children ≠ front ++ .addTo first :: .addTo second :: .addTo third :: back) ∧
      (∀ front offset back, children = front ++ .addTo offset :: back → ∀ machine : Machine,
        (machine.addTo offset).tape.current = machine.tape.current) ∧
      ∀ front first second back, children = front ++ .addTo first :: .addTo second :: back →
        ∀ machine : Machine,
          (machine.addTo first).tape.get second = machine.tape.get second
  | _ => True

theorem released_of_two {nodes : List (Node Hole)}
    (closed : nodes.foldlM Streak.behind .two = some .none) :
    ∃ value others, nodes = .set value :: others := by
  cases nodes with
  | nil => cases closed
  | cons node rest =>
      cases node with
      | set value => exact ⟨value, rest, rfl⟩
      | _ => cases closed

theorem released_of_one {offset : Int} {nodes : List (Node Hole)}
    (closed : nodes.foldlM Streak.behind (.one offset) = some .none) : Released offset nodes := by
  cases nodes with
  | nil => cases closed
  | cons node rest =>
      obtain ⟨after, stands, closed⟩ := foldlM_behind_cons.mp closed
      cases node with
      | set value => exact Or.inl ⟨value, rest, rfl⟩
      | addTo other =>
          simp only [Streak.behind] at stands
          split at stands
          · cases stands
          · rename_i apart
            cases stands
            obtain ⟨value, others, rfl⟩ := released_of_two closed
            exact Or.inr ⟨other, value, others, rfl, fun same => apart (Or.inr same)⟩
      | _ => cases stands

theorem Closed.released {front back : List (Node Hole)} {offset : Int}
    (closed : Closed (front ++ .addTo offset :: back)) : offset ≠ 0 ∧ Released offset back := by
  obtain ⟨before, _, closed⟩ := foldlM_behind_append.mp closed
  obtain ⟨after, stands, closed⟩ := foldlM_behind_cons.mp closed
  cases before with
  | none =>
      simp only [Streak.behind] at stands
      split at stands
      · cases stands
      · rename_i away
        cases stands
        exact ⟨away, released_of_one closed⟩
  | one other =>
      simp only [Streak.behind] at stands
      split at stands
      · cases stands
      · rename_i apart
        cases stands
        exact ⟨fun zero => apart (Or.inl zero), Or.inl (released_of_two closed)⟩
  | two => cases stands

theorem not_isAddTo_of_closed {node : Node Hole} (closed : Closed [node]) : ¬ IsAddTo node := by
  cases node with
  | addTo offset =>
      obtain ⟨_, ⟨_, _, nothing⟩ | ⟨_, _, _, nothing, _⟩⟩ :=
        Closed.released (show Closed ([] ++ .addTo offset :: []) from closed)
      · cases nothing
      · cases nothing
  | _ => exact id

theorem Sheltered.wellPlaced {node : Node Hole} (sheltered : node.Sheltered) : node.WellPlaced := by
  cases node with
  | block children =>
      rintro front offset back rfl
      exact Closed.released sheltered
  | loop body => exact not_isAddTo_of_closed sheltered
  | _ => trivial

theorem current_addTo {offset : Int} (away : offset ≠ 0) (machine : Machine) :
    (machine.addTo offset).tape.current = machine.tape.current := by
  rw [Machine.addTo, Tape.current, Tape.cellAt_set, Tape.pointer_set, if_neg (by omega)]
  rfl

theorem get_addTo {offset other : Int} (apart : other ≠ offset) (machine : Machine) :
    (machine.addTo offset).tape.get other = machine.tape.get other := by
  rw [Machine.addTo, Tape.get, Tape.cellAt_set, Tape.pointer_set, if_neg (by omega)]
  rfl

theorem WellPlaced.undisturbed {node : Node Hole} (placed : node.WellPlaced) : node.Undisturbed := by
  cases node with
  | block children =>
      refine ⟨?_, ?_, ?_⟩
      · rintro front first second third back rfl
        obtain ⟨_, ⟨_, _, next⟩ | ⟨_, _, _, next, _⟩⟩ := placed front first _ rfl
        · cases next
        · cases next
      · rintro front offset back rfl machine
        exact current_addTo (placed front offset back rfl).1 machine
      · rintro front first second back rfl machine
        obtain ⟨_, ⟨_, _, next⟩ | ⟨_, _, _, next, apart⟩⟩ := placed front first _ rfl
        · cases next
        · cases next
          exact get_addTo apart machine
  | _ => trivial

end Node

namespace Tree

open Node

theorem isPlain_fromCommands : FromCommands IsPlain where
  single := by
    intro command node found
    cases command <;> cases found <;> trivial
  block := fun _ => trivial
  loop := fun _ => trivial

end Tree

namespace Node

/-- In the optimized tree of a source text, all that adds the current cell to another one does so
just before the current cell is overwritten, at one or two cells that are apart from it and from
one another. -/
theorem runPasses_wellPlaced {strict : Bool} {source : String} {tree : Tree}
    (parsed : Tree.parse strict source = .ok tree) (passes : Option Int) :
    ¬ IsAddTo (tree.runPasses passes).tree ∧
      (tree.runPasses passes).tree.Everywhere WellPlaced ∧
      (tree.runPasses passes).tree.Everywhere Undisturbed := by
  have plain := Tree.isPlain_fromCommands.parse_everywhere parsed
  have before : tree.ClosesStreaks := ⟨closed_plain plain.here, sheltered_of_plain tree plain⟩
  obtain ⟨count, same⟩ := runPasses_tree tree passes
  obtain ⟨closed, sheltered⟩ := afterPasses_closesStreaks count before
  rw [same]
  have placed := Everywhere.mono (fun _ => Sheltered.wellPlaced) _ sheltered
  exact ⟨not_isAddTo_of_closed closed, placed,
    Everywhere.mono (fun _ => WellPlaced.undisturbed) _ placed⟩

/-- The second pass folds what stands behind the two nodes into the number that is written. -/
theorem double_transfer_wellPlaced :
    ∃ tree, Tree.parse true "+[->+>+<<]+." = .ok tree ∧
      (tree.runPasses (some 2)).tree =
        .block [.add 1, .addTo 1, .addTo 2, .set 1, .print] ∧
      (tree.runPasses (some 2)).tree.Everywhere WellPlaced := by
  have parsed : Tree.parse true "+[->+>+<<]+." = .ok _ := rfl
  exact ⟨_, parsed, by decide, (runPasses_wellPlaced parsed (some 2)).2.1⟩

end Node

end TapeTree
