import TapeTree.Machine.Flat
import TapeTree.Proofs.Tree.Written

/-! Brackets and their partners in a written tree: a search for a bracket passes over every piece
that a tree is written as. -/

namespace TapeTree

namespace Command

open TapeTree.Tree (Assembled)

theorem closeAhead?_instruction {command : Command} {node : Tree}
    (found : Tree.instruction? command = some node) (depth : Nat) (rest : List Command) :
    closeAhead? depth (command :: rest) = (closeAhead? depth rest).map (· + 1) := by
  cases command <;> first | rfl | cases found

theorem openBehind?_instruction {command : Command} {node : Tree}
    (found : Tree.instruction? command = some node) (depth : Nat) (rest : List Command) :
    openBehind? depth (command :: rest) = (openBehind? depth rest).map (· + 1) := by
  cases command <;> first | rfl | cases found

theorem closeAhead?_assembled : Assembled fun code => ∀ depth rest,
    closeAhead? depth (code ++ rest) = (closeAhead? depth rest).map (· + code.length) where
  nil := fun depth rest => by simp
  single := fun found depth rest => closeAhead?_instruction found depth rest
  append := by
    intro first second passFirst passSecond depth rest
    rw [List.append_assoc, passFirst, passSecond, Option.map_map, List.length_append]
    congr 1
    funext distance
    simp only [Function.comp_apply]
    omega
  loop := by
    intro inner pass depth rest
    have searched : closeAhead? depth (.openLoop :: (inner ++ [.closeLoop]) ++ rest) =
        (closeAhead? (depth + 1) (inner ++ .closeLoop :: rest)).map (· + 1) := by
      simp [closeAhead?]
    rw [searched, pass, closeAhead?, Option.map_map, Option.map_map]
    congr 1
    funext distance
    simp only [Function.comp_apply, List.length_cons, List.length_append, List.length_nil]
    omega

theorem openBehind?_assembled : Assembled fun code => ∀ depth rest,
    openBehind? depth (code.reverse ++ rest) = (openBehind? depth rest).map (· + code.length) where
  nil := fun depth rest => by simp
  single := fun found depth rest => openBehind?_instruction found depth rest
  append := by
    intro first second passFirst passSecond depth rest
    rw [List.reverse_append, List.append_assoc, passSecond, passFirst, Option.map_map,
      List.length_append]
    congr 1
    funext distance
    simp only [Function.comp_apply]
    omega
  loop := by
    intro inner pass depth rest
    have searched : openBehind? depth ((.openLoop :: (inner ++ [.closeLoop])).reverse ++ rest) =
        (openBehind? (depth + 1) (inner.reverse ++ .openLoop :: rest)).map (· + 1) := by
      simp [openBehind?]
    rw [searched, pass, openBehind?, Option.map_map, Option.map_map]
    congr 1
    funext distance
    simp only [Function.comp_apply, List.length_cons, List.length_append, List.length_nil]
    omega

def StandsAt (commands : List Command) (position : Nat) (code : List Command) : Prop :=
  ∃ before behind, commands = before ++ code ++ behind ∧ position = before.length

namespace StandsAt

variable {commands code others inner : List Command} {position : Nat}

theorem whole (commands : List Command) : StandsAt commands 0 commands :=
  ⟨[], [], by simp, rfl⟩

theorem first (stands : StandsAt commands position (code ++ others)) :
    StandsAt commands position code := by
  obtain ⟨before, behind, same, place⟩ := stands
  exact ⟨before, others ++ behind, by simp [same], place⟩

theorem second (stands : StandsAt commands position (code ++ others)) :
    StandsAt commands (position + code.length) others := by
  obtain ⟨before, behind, same, place⟩ := stands
  exact ⟨before ++ code, behind, by simp [same], by simp [place]⟩

theorem here {command : Command} (stands : StandsAt commands position (command :: others)) :
    commands[position]? = some command := by
  obtain ⟨before, behind, rfl, rfl⟩ := stands
  simp

theorem inside (stands : StandsAt commands position (.openLoop :: (inner ++ [.closeLoop]))) :
    StandsAt commands (position + 1) inner := by
  have split : StandsAt commands position ([.openLoop] ++ (inner ++ [.closeLoop])) := stands
  exact split.second.first

theorem closing (stands : StandsAt commands position (.openLoop :: (inner ++ [.closeLoop]))) :
    commands[position + 1 + inner.length]? = some .closeLoop := by
  have split : StandsAt commands position ([.openLoop] ++ (inner ++ [.closeLoop])) := stands
  exact split.second.second.here

theorem partnerAhead? (stands : StandsAt commands position (.openLoop :: (inner ++ [.closeLoop])))
    {body : Tree} (written : Tree.commands? body = some inner) :
    Command.partnerAhead? commands position = some (position + 1 + inner.length) := by
  obtain ⟨before, behind, rfl, rfl⟩ := stands
  have ahead : (before ++ openLoop :: (inner ++ [closeLoop]) ++ behind).drop
      (before.length + 1) = inner ++ .closeLoop :: behind := by
    simp [← List.drop_drop]
  rw [Command.partnerAhead?, ahead, closeAhead?_assembled.tree body written, closeAhead?]
  simp

theorem partnerBehind? (stands : StandsAt commands position (.openLoop :: (inner ++ [.closeLoop])))
    {body : Tree} (written : Tree.commands? body = some inner) :
    Command.partnerBehind? commands (position + 1 + inner.length) = some position := by
  obtain ⟨before, behind, rfl, rfl⟩ := stands
  have start : (before ++ openLoop :: (inner ++ [closeLoop]) ++ behind).take
      (before.length + 1 + inner.length) = before ++ openLoop :: inner := by
    rw [show before ++ openLoop :: (inner ++ [closeLoop]) ++ behind =
      (before ++ openLoop :: inner) ++ .closeLoop :: behind by simp]
    exact List.take_left' (by simp; omega)
  have back : (before ++ openLoop :: inner).reverse =
      inner.reverse ++ .openLoop :: before.reverse := by
    simp
  rw [Command.partnerBehind?, start, back, openBehind?_assembled.tree body written, openBehind?]
  simp

end StandsAt

end Command

end TapeTree
