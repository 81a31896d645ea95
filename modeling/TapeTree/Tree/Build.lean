import TapeTree.Token
import TapeTree.Tree

/-! Building trees from tokens. The body of a loop is a block of its own, and the tokens that it
does not read are left for the block around it. -/

namespace TapeTree

def nestingLimit : Nat := 10000

inductive BuildError where
  | unmatchedClose
  | unmatchedOpen
  | tooDeep
deriving DecidableEq

def BuildError.summary : BuildError → String
  | .unmatchedClose => "Unmatched ']'"
  | .unmatchedOpen => "Unmatched '['"
  | .tooDeep => "NestingError: loops are nested too deeply to process"

/-- How tokens are read: starting inside a loop, which a closing bracket then ends, or not; and
taking the end of the tokens inside a loop for an error, or closing the loop there. -/
structure BuildMode where
  insideLoop : Bool := false
  strict : Bool := false

structure Built where
  result : Except BuildError Tree
  rest : List Token

namespace Tree

def instruction? : Command → Option Tree
  | .right => some (.move 1)
  | .left => some (.move (-1))
  | .increment => some (.add 1)
  | .decrement => some (.add (cellSize - 1))
  | .print => some .print
  | .read => some .read
  | .openLoop => none
  | .closeLoop => none

def blockOfReverse (nodes : List Tree) : Tree :=
  .block nodes.reverse

/-- Builds a block from its next token on. The nodes `before` are in it already, the last one
first, and at most `room` more loops may be opened. -/
@[semireducible] def buildBlock (mode : BuildMode) (room : Nat) (before : List Tree)
    (tokens : List Token) : { built : Built // built.rest <:+ tokens } :=
  match tokens with
  | [] =>
      if mode.insideLoop && mode.strict then ⟨⟨.error .unmatchedOpen, []⟩, List.suffix_refl _⟩
      else ⟨⟨.ok (blockOfReverse before), []⟩, List.suffix_refl _⟩
  | token :: rest =>
      have onward := List.suffix_cons token rest
      match instruction? token.command with
      | some node =>
          let after := buildBlock mode room (node :: before) rest
          ⟨after.val, after.property.trans onward⟩
      | none =>
          if token.command = .openLoop then
            match room with
            | 0 => ⟨⟨.error .tooDeep, rest⟩, onward⟩
            | less + 1 =>
                match buildBlock { mode with insideLoop := true } less [] rest with
                | ⟨⟨.error error, left⟩, within⟩ => ⟨⟨.error error, left⟩, within.trans onward⟩
                | ⟨⟨.ok body, left⟩, within⟩ =>
                    have shorter : left.length ≤ rest.length := within.length_le
                    let after := buildBlock mode (less + 1) (.loop body :: before) left
                    ⟨after.val, after.property.trans (within.trans onward)⟩
          else if mode.insideLoop then ⟨⟨.ok (blockOfReverse before), rest⟩, onward⟩
          else ⟨⟨.error .unmatchedClose, rest⟩, onward⟩
termination_by tokens.length
decreasing_by
  all_goals simp_wf
  all_goals omega

section Steps

variable {mode : BuildMode} {room : Nat} {before : List Tree} {token : Token} {rest : List Token}

theorem buildBlock_nil :
    (buildBlock mode room before []).val =
      if mode.insideLoop && mode.strict then ⟨.error .unmatchedOpen, []⟩
      else ⟨.ok (blockOfReverse before), []⟩ := by
  rw [buildBlock.eq_def]
  split <;> rfl

theorem buildBlock_instruction {node : Tree} (found : instruction? token.command = some node) :
    (buildBlock mode room before (token :: rest)).val =
      (buildBlock mode room (node :: before) rest).val := by
  rw [buildBlock.eq_def]
  simp only [found]

theorem buildBlock_full (opens : token.command = .openLoop) :
    (buildBlock mode 0 before (token :: rest)).val = ⟨.error .tooDeep, rest⟩ := by
  rw [buildBlock.eq_def]
  simp only [opens, instruction?, if_true]

theorem buildBlock_openLoop (opens : token.command = .openLoop) :
    (buildBlock mode (room + 1) before (token :: rest)).val =
      let inner := (buildBlock { mode with insideLoop := true } room [] rest).val
      match inner.result with
      | .error error => ⟨.error error, inner.rest⟩
      | .ok body => (buildBlock mode (room + 1) (.loop body :: before) inner.rest).val := by
  rw [buildBlock.eq_def]
  simp only [opens, instruction?, if_true]
  obtain ⟨⟨error | body, left⟩, within⟩ :=
    buildBlock { mode with insideLoop := true } room [] rest <;> rfl

theorem buildBlock_closeLoop (closes : token.command = .closeLoop) :
    (buildBlock mode room before (token :: rest)).val =
      if mode.insideLoop then ⟨.ok (blockOfReverse before), rest⟩
      else ⟨.error .unmatchedClose, rest⟩ := by
  rw [buildBlock.eq_def]
  simp only [closes, instruction?, reduceCtorEq, if_false]
  split <;> rfl

end Steps

def build (mode : BuildMode) (tokens : List Token) : Built :=
  (buildBlock mode nestingLimit [] tokens).val

def buildEach : List BuildMode → List Token → List (Except BuildError Tree) × List Token
  | [], tokens => ([], tokens)
  | mode :: modes, tokens =>
      let first := build mode tokens
      let others := buildEach modes first.rest
      (first.result :: others.1, others.2)

end Tree

end TapeTree
