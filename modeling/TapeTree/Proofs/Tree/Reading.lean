import TapeTree.Parse
import TapeTree.Proofs.Tree.Written

/-! Building, one token at a time. What was read so far determines how the building goes on, and
can be written back as the commands that were read. The loops that the builder is inside of are
those that the stream of tokens has open brackets of. -/

namespace TapeTree

open Command

/-- A loop whose end is not reached yet, with the nodes before it, the last one first. -/
structure OpenLoop where
  bracket : Token
  before : List Tree

def Tree.closeAll : List OpenLoop → List Tree → Tree
  | [], before => blockOfReverse before
  | inner :: outer, before =>
      closeAll outer (.loop (blockOfReverse before) :: inner.before)

structure Reading where
  opened : List OpenLoop := []
  before : List Tree := []

namespace Reading

def take? (reading : Reading) (token : Token) : Option Reading :=
  match Tree.instruction? token.command with
  | some node => some { reading with before := node :: reading.before }
  | none =>
      if token.command = .openLoop then some ⟨⟨token, reading.before⟩ :: reading.opened, []⟩
      else
        match reading.opened with
        | [] => none
        | inner :: outer =>
            some ⟨outer, .loop (Tree.blockOfReverse reading.before) :: inner.before⟩

def takeAll? (reading : Reading) (tokens : List Token) : Option Reading :=
  tokens.foldlM take? reading

def modeInside (mode : BuildMode) (opened : List OpenLoop) : BuildMode :=
  { mode with insideLoop := mode.insideLoop || !opened.isEmpty }

def outward (mode : BuildMode) : List OpenLoop → Built → Built
  | [], built => built
  | inner :: outer, built =>
      match built.result with
      | .error error => ⟨.error error, built.rest⟩
      | .ok body =>
          outward mode outer (Tree.buildBlock (modeInside mode outer) (nestingLimit - outer.length)
            (.loop body :: inner.before) built.rest).val

/-- Builds on from what was read. -/
def goOn (mode : BuildMode) (reading : Reading) (tokens : List Token) : Built :=
  outward mode reading.opened (Tree.buildBlock (modeInside mode reading.opened)
    (nestingLimit - reading.opened.length) reading.before tokens).val

theorem modeInside_nil (mode : BuildMode) : modeInside mode [] = mode := by
  simp [modeInside]

theorem modeInside_cons (mode : BuildMode) (inner : OpenLoop) (outer : List OpenLoop) :
    modeInside mode (inner :: outer) = { mode with insideLoop := true } := by
  simp [modeInside]

theorem modeInside_strict (mode : BuildMode) (opened : List OpenLoop) :
    (modeInside mode opened).strict = mode.strict := rfl

theorem outward_error (mode : BuildMode) (opened : List OpenLoop) (error : BuildError)
    (rest : List Token) : outward mode opened ⟨.error error, rest⟩ = ⟨.error error, rest⟩ := by
  cases opened <;> rfl

theorem build_eq_goOn (mode : BuildMode) (tokens : List Token) :
    Tree.build mode tokens = goOn mode {} tokens := by
  rw [goOn, outward, modeInside_nil]
  rfl

@[simp] theorem takeAll?_nil (reading : Reading) : reading.takeAll? [] = some reading := rfl

theorem takeAll?_cons (reading : Reading) (token : Token) (rest : List Token) :
    reading.takeAll? (token :: rest) =
      (reading.take? token).bind fun after => after.takeAll? rest := rfl

theorem takeAll?_append {reading middle : Reading} {tokens others : List Token}
    (taken : reading.takeAll? tokens = some middle) :
    reading.takeAll? (tokens ++ others) = middle.takeAll? others := by
  rw [takeAll?] at taken
  rw [takeAll?, List.foldlM_append, taken]
  rfl

theorem command_cases (command : Command) :
    (∃ node, Tree.instruction? command = some node) ∨ command = .openLoop ∨
      command = .closeLoop := by
  cases command <;> simp [Tree.instruction?]

theorem take?_instruction {token : Token} {node : Tree}
    (found : Tree.instruction? token.command = some node) (reading : Reading) :
    reading.take? token = some { reading with before := node :: reading.before } := by
  rw [take?, found]

theorem take?_openLoop {token : Token} (opens : token.command = .openLoop) (reading : Reading) :
    reading.take? token = some ⟨⟨token, reading.before⟩ :: reading.opened, []⟩ := by
  simp [take?, opens, Tree.instruction?]

theorem take?_closeLoop {token : Token} (closes : token.command = .closeLoop) {inner : OpenLoop}
    {outer : List OpenLoop} (before : List Tree) :
    take? ⟨inner :: outer, before⟩ token =
      some ⟨outer, .loop (Tree.blockOfReverse before) :: inner.before⟩ := by
  simp [take?, closes, Tree.instruction?]

theorem take?_unmatched {token : Token} (closes : token.command = .closeLoop)
    (before : List Tree) : take? ⟨[], before⟩ token = none := by
  simp [take?, closes, Tree.instruction?]

theorem take?_cases (reading : Reading) (token : Token) :
    (∃ node, Tree.instruction? token.command = some node ∧
      reading.take? token = some { reading with before := node :: reading.before }) ∨
    (token.command = .openLoop ∧
      reading.take? token = some ⟨⟨token, reading.before⟩ :: reading.opened, []⟩) ∨
    (∃ inner outer, token.command = .closeLoop ∧ reading.opened = inner :: outer ∧
      reading.take? token =
        some ⟨outer, .loop (Tree.blockOfReverse reading.before) :: inner.before⟩) ∨
    (token.command = .closeLoop ∧ reading.opened = [] ∧ reading.take? token = none) := by
  rcases command_cases token.command with ⟨node, found⟩ | opens | closes
  · exact Or.inl ⟨node, found, take?_instruction found reading⟩
  · exact Or.inr (Or.inl ⟨opens, take?_openLoop opens reading⟩)
  · obtain ⟨opened, before⟩ := reading
    cases opened with
    | nil => exact Or.inr (Or.inr (Or.inr ⟨closes, rfl, take?_unmatched closes before⟩))
    | cons inner outer =>
        exact Or.inr (Or.inr (Or.inl ⟨inner, outer, closes, rfl, take?_closeLoop closes before⟩))

theorem take?_eq_none {reading : Reading} {token : Token} (stopped : reading.take? token = none) :
    token.command = .closeLoop ∧ reading.opened = [] := by
  rcases reading.take?_cases token with
    ⟨_, _, took⟩ | ⟨_, took⟩ | ⟨_, _, _, _, took⟩ | ⟨closes, opened, _⟩
  · rw [took] at stopped
    cases stopped
  · rw [took] at stopped
    cases stopped
  · rw [took] at stopped
    cases stopped
  · exact ⟨closes, opened⟩

/-! How many loops are open. -/

theorem take?_opened {reading after : Reading} {token : Token}
    (taken : reading.take? token = some after) :
    (after.opened.length : Int) = reading.opened.length + depth [token.command] := by
  rcases reading.take?_cases token with
    ⟨node, found, took⟩ | ⟨opens, took⟩ | ⟨inner, outer, closes, opened, took⟩ | ⟨_, _, took⟩ <;>
  rw [took] at taken <;> cases taken
  · rw [depth_of_instruction found]
    simp
  · rw [opens, depth_openLoop]
    simp
  · rw [closes, depth_closeLoop, opened]
    simp only [List.length_cons]
    omega

theorem takeAll?_opened {reading after : Reading} {tokens : List Token}
    (taken : reading.takeAll? tokens = some after) :
    (after.opened.length : Int) =
      reading.opened.length + depth (tokens.map Token.command) := by
  induction tokens generalizing reading with
  | nil =>
      cases taken
      simp
  | cons token rest ih =>
      rw [takeAll?_cons, Option.bind_eq_some_iff] at taken
      obtain ⟨middle, first, others⟩ := taken
      have opened := take?_opened first
      have further := ih others
      rw [List.map_cons, depth_cons]
      omega

theorem takeAll?_isSome_iff (reading : Reading) (tokens : List Token) :
    (∃ after, reading.takeAll? tokens = some after) ↔
      ∀ start, start <+: tokens.map Token.command → 0 ≤ reading.opened.length + depth start := by
  induction tokens generalizing reading with
  | nil =>
      simp only [takeAll?_nil, List.map_nil, List.prefix_nil, Option.some.injEq, exists_eq',
        true_iff]
      rintro start rfl
      rw [depth_nil]
      omega
  | cons token rest ih =>
      rw [List.map_cons, forall_start_cons, takeAll?_cons]
      cases took : reading.take? token with
      | none =>
          obtain ⟨closes, opened⟩ := take?_eq_none took
          simp only [Option.bind_none, reduceCtorEq, exists_false, false_iff]
          rintro ⟨_, others⟩
          have negative := others [] List.nil_prefix
          rw [closes, opened, depth_closeLoop] at negative
          simp at negative
      | some after =>
          have opened := take?_opened took
          rw [Option.bind_some, ih]
          constructor
          · intro every
            refine ⟨by rw [depth_nil]; omega, fun start within => ?_⟩
            have later := every start within
            rw [depth_cons]
            omega
          · rintro ⟨_, every⟩ start within
            have later := every start within
            rw [depth_cons] at later
            omega

theorem takeAll?_eq_none {reading : Reading} {tokens : List Token}
    (stopped : reading.takeAll? tokens = none) :
    ∃ read bracket rest after, tokens = read ++ bracket :: rest ∧
      reading.takeAll? read = some after ∧ after.opened = [] ∧ bracket.command = .closeLoop := by
  induction tokens generalizing reading with
  | nil => simp at stopped
  | cons token rest ih =>
      rw [takeAll?_cons] at stopped
      cases took : reading.take? token with
      | none =>
          obtain ⟨closes, opened⟩ := take?_eq_none took
          exact ⟨[], token, rest, reading, rfl, rfl, opened, closes⟩
      | some after =>
          rw [took, Option.bind_some] at stopped
          obtain ⟨read, bracket, others, last, rfl, taken, opened, closes⟩ := ih stopped
          refine ⟨token :: read, bracket, others, last, rfl, ?_, opened, closes⟩
          rw [takeAll?_cons, took, Option.bind_some, taken]

/-! What was read, written back. -/

def writtenFrom? : List OpenLoop → List Tree → Option (List Command)
  | [], before => Tree.childrenCommands? before.reverse
  | inner :: outer, before =>
      match writtenFrom? outer inner.before, Tree.childrenCommands? before.reverse with
      | some around, some inside => some (around ++ .openLoop :: inside)
      | _, _ => none

def written? (reading : Reading) : Option (List Command) :=
  writtenFrom? reading.opened reading.before

theorem writtenFrom?_cons {inner : OpenLoop} {outer : List OpenLoop} {before : List Tree}
    {written : List Command} :
    writtenFrom? (inner :: outer) before = some written ↔
      ∃ around inside, writtenFrom? outer inner.before = some around ∧
        Tree.childrenCommands? before.reverse = some inside ∧
        written = around ++ .openLoop :: inside := by
  rw [writtenFrom?]
  cases writtenFrom? outer inner.before <;> cases Tree.childrenCommands? before.reverse <;>
    simp [eq_comm]

theorem writtenFrom?_node {opened : List OpenLoop} {before : List Tree} {node : Tree}
    {written code : List Command} (found : writtenFrom? opened before = some written)
    (nodeFound : Tree.nodeCommands? node = some code) :
    writtenFrom? opened (node :: before) = some (written ++ code) := by
  have alone : Tree.childrenCommands? [node] = some code :=
    Tree.childrenCommands?_cons.mpr ⟨code, [], nodeFound, rfl, by simp⟩
  cases opened with
  | nil =>
      rw [writtenFrom?, List.reverse_cons]
      exact Tree.childrenCommands?_append found alone
  | cons inner outer =>
      obtain ⟨around, inside, outside, blockFound, rfl⟩ := writtenFrom?_cons.mp found
      refine writtenFrom?_cons.mpr ⟨around, inside ++ code, outside, ?_, by simp⟩
      rw [List.reverse_cons]
      exact Tree.childrenCommands?_append blockFound alone

theorem writtenFrom?_close {inner : OpenLoop} {outer : List OpenLoop} {before : List Tree}
    {written : List Command} (found : writtenFrom? (inner :: outer) before = some written) :
    writtenFrom? outer (.loop (Tree.blockOfReverse before) :: inner.before) =
      some (written ++ [.closeLoop]) := by
  obtain ⟨around, inside, outside, blockFound, rfl⟩ := writtenFrom?_cons.mp found
  have loopFound : Tree.nodeCommands? (.loop (Tree.blockOfReverse before)) =
      some (.openLoop :: (inside ++ [.closeLoop])) :=
    Tree.nodeCommands?_loop.mpr ⟨inside, blockFound, rfl⟩
  rw [writtenFrom?_node outside loopFound]
  simp

theorem take?_written {reading after : Reading} {token : Token} {written : List Command}
    (found : reading.written? = some written) (taken : reading.take? token = some after) :
    after.written? = some (written ++ [token.command]) := by
  rcases reading.take?_cases token with
    ⟨node, single, took⟩ | ⟨opens, took⟩ | ⟨inner, outer, closes, opened, took⟩ | ⟨_, _, took⟩ <;>
  rw [took] at taken <;> cases taken
  · exact writtenFrom?_node found (Tree.nodeCommands?_instruction single)
  · rw [opens]
    exact writtenFrom?_cons.mpr ⟨written, [], found, rfl, rfl⟩
  · rw [written?, opened] at found
    rw [closes]
    exact writtenFrom?_close found

theorem takeAll?_written {reading after : Reading} {tokens : List Token} {written : List Command}
    (found : reading.written? = some written) (taken : reading.takeAll? tokens = some after) :
    after.written? = some (written ++ tokens.map Token.command) := by
  induction tokens generalizing reading written with
  | nil =>
      cases taken
      simpa using found
  | cons token rest ih =>
      rw [takeAll?_cons, Option.bind_eq_some_iff] at taken
      obtain ⟨middle, first, others⟩ := taken
      rw [ih (take?_written found first) others]
      simp

theorem commands?_closeAll {opened : List OpenLoop} {before : List Tree} {written : List Command}
    (found : writtenFrom? opened before = some written) :
    Tree.commands? (Tree.closeAll opened before) =
      some (written ++ List.replicate opened.length .closeLoop) := by
  induction opened generalizing before written with
  | nil =>
      rw [List.length_nil, List.replicate_zero, List.append_nil]
      exact found
  | cons inner outer ih =>
      rw [Tree.closeAll, ih (writtenFrom?_close found), List.length_cons, List.replicate_succ]
      simp

/-! Reading a written tree makes the tree. -/

mutual

theorem takeAll?_node (node : Tree) {tokens : List Token}
    (written : Tree.nodeCommands? node = some (tokens.map Token.command))
    (opened : List OpenLoop) (before : List Tree) :
    takeAll? ⟨opened, before⟩ tokens = some ⟨opened, node :: before⟩ := by
  match node with
  | .loop body =>
      obtain ⟨inner, insideWritten, around⟩ := Tree.nodeCommands?_loop.mp written
      obtain ⟨bracket, further, rfl, opens, inside⟩ := List.map_eq_cons_iff.mp around
      obtain ⟨block, last, rfl, rfl, closing⟩ := List.map_eq_append_iff.mp inside
      obtain ⟨partner, rfl, closes⟩ := List.map_eq_singleton_iff.mp closing
      obtain ⟨children, rfl, taken⟩ :=
        takeAll?_tree body insideWritten (⟨bracket, before⟩ :: opened) []
      rw [takeAll?_cons, take?_openLoop opens, Option.bind_some, takeAll?_append taken,
        takeAll?_cons, take?_closeLoop closes]
      simp [Tree.blockOfReverse]
  | .move _ | .add _ | .set _ | .print | .read | .addTo _ | .hole _ | .block _ =>
      obtain ⟨command, single, found⟩ := Tree.instruction?_written written (by simp)
      obtain ⟨token, rfl, same⟩ := List.map_eq_singleton_iff.mp single
      rw [← same] at found
      rw [takeAll?_cons, take?_instruction found]
      rfl

theorem takeAll?_tree (tree : Tree) {tokens : List Token}
    (written : Tree.commands? tree = some (tokens.map Token.command))
    (opened : List OpenLoop) (before : List Tree) :
    ∃ children, tree = .block children ∧
      takeAll? ⟨opened, before⟩ tokens = some ⟨opened, children.reverse ++ before⟩ := by
  match tree with
  | .block children =>
      rw [Tree.commands?] at written
      exact ⟨children, rfl, takeAll?_children children written opened before⟩
  | .move _ | .add _ | .set _ | .print | .read | .loop _ | .addTo _ | .hole _ =>
      simp [Tree.commands?] at written

theorem takeAll?_children (nodes : List Tree) {tokens : List Token}
    (written : Tree.childrenCommands? nodes = some (tokens.map Token.command))
    (opened : List OpenLoop) (before : List Tree) :
    takeAll? ⟨opened, before⟩ tokens = some ⟨opened, nodes.reverse ++ before⟩ := by
  match nodes with
  | [] =>
      rw [Tree.childrenCommands?, Option.some.injEq, eq_comm, List.map_eq_nil_iff] at written
      rw [written]
      rfl
  | node :: rest =>
      obtain ⟨first, others, firstWritten, restWritten, both⟩ :=
        Tree.childrenCommands?_cons.mp written
      obtain ⟨here, further, rfl, rfl, rfl⟩ := List.map_eq_append_iff.mp both
      rw [takeAll?_append (takeAll?_node node firstWritten opened before),
        takeAll?_children rest restWritten opened]
      simp

end

/-! Building goes on from what was read. -/

theorem goOn_openLoop {token : Token} (opens : token.command = .openLoop) {reading : Reading}
    (room : reading.opened.length < nestingLimit) (mode : BuildMode) (rest : List Token) :
    goOn mode reading (token :: rest) =
      goOn mode ⟨⟨token, reading.before⟩ :: reading.opened, []⟩ rest := by
  -- the room is a difference, which has to be positive for one more loop
  obtain ⟨less, enough⟩ : ∃ less, nestingLimit - reading.opened.length = less + 1 :=
    ⟨nestingLimit - reading.opened.length - 1, by omega⟩
  have left : nestingLimit - (reading.opened.length + 1) = less := by omega
  rw [goOn, enough, Tree.buildBlock_openLoop opens, goOn, List.length_cons, left, outward,
    modeInside_cons, enough]
  simp only [modeInside_strict]
  obtain ⟨⟨error | body, left⟩, within⟩ :=
    Tree.buildBlock { mode with insideLoop := true } less [] rest
  · exact outward_error mode _ _ _
  · rfl

theorem goOn_full {token : Token} (opens : token.command = .openLoop) {reading : Reading}
    (full : nestingLimit ≤ reading.opened.length) (mode : BuildMode) (rest : List Token) :
    goOn mode reading (token :: rest) = ⟨.error .tooDeep, rest⟩ := by
  rw [goOn, Nat.sub_eq_zero_of_le full, Tree.buildBlock_full opens, outward_error]

theorem goOn_take {reading after : Reading} {token : Token}
    (taken : reading.take? token = some after)
    (roomAfter : after.opened.length ≤ nestingLimit) (mode : BuildMode) (rest : List Token) :
    goOn mode reading (token :: rest) = goOn mode after rest := by
  rcases reading.take?_cases token with
    ⟨node, found, took⟩ | ⟨opens, took⟩ | ⟨inner, outer, closes, opened, took⟩ | ⟨_, _, took⟩ <;>
  rw [took] at taken <;> cases taken
  · rw [goOn, Tree.buildBlock_instruction found]
    rfl
  · exact goOn_openLoop opens roomAfter mode rest
  · rw [goOn, Tree.buildBlock_closeLoop closes, opened, modeInside_cons, if_pos rfl]
    rfl

theorem goOn_takeAll {reading after : Reading} {tokens : List Token}
    (taken : reading.takeAll? tokens = some after)
    (room : ∀ start, start <+: tokens.map Token.command →
      reading.opened.length + depth start ≤ nestingLimit) (mode : BuildMode) (rest : List Token) :
    goOn mode reading (tokens ++ rest) = goOn mode after rest := by
  induction tokens generalizing reading with
  | nil =>
      cases taken
      rfl
  | cons token others ih =>
      rw [takeAll?_cons, Option.bind_eq_some_iff] at taken
      obtain ⟨middle, first, further⟩ := taken
      rw [List.map_cons, forall_start_cons] at room
      have opened := take?_opened first
      have now := room.1
      have later := room.2 [] List.nil_prefix
      rw [depth_nil] at now
      rw [List.cons_append, goOn_take first (by omega)]
      refine ih further fun start within => ?_
      have deep := room.2 start within
      rw [depth_cons] at deep
      omega

theorem goOn_nil (mode : BuildMode) (reading : Reading) :
    goOn mode reading [] =
      if mode.strict && (mode.insideLoop || !reading.opened.isEmpty) then
        ⟨.error .unmatchedOpen, []⟩
      else ⟨.ok (Tree.closeAll reading.opened reading.before), []⟩ := by
  obtain ⟨opened, before⟩ := reading
  induction opened generalizing before with
  | nil =>
      rw [goOn, outward, modeInside_nil, Tree.buildBlock_nil]
      simp [Bool.and_comm, Tree.closeAll]
  | cons inner outer ih =>
      rw [goOn, modeInside_cons, Tree.buildBlock_nil]
      cases strict : mode.strict with
      | true => simp [outward]
      | false =>
          have further := ih (.loop (Tree.blockOfReverse before) :: inner.before)
          simp only [strict, Bool.false_and, Bool.false_eq_true, if_false] at further
          exact further

theorem goOn_close {reading : Reading} (opened : reading.opened = []) {bracket : Token}
    (closes : bracket.command = .closeLoop) (mode : BuildMode) (rest : List Token) :
    goOn mode reading (bracket :: rest) =
      if mode.insideLoop then ⟨.ok (Tree.blockOfReverse reading.before), rest⟩
      else ⟨.error .unmatchedClose, rest⟩ := by
  rw [goOn, opened, outward, modeInside_nil, Tree.buildBlock_closeLoop closes]

/-! The stream of tokens keeps its own account of the brackets. -/

theorem trail_opened {reading after : Reading} {tokens : List Token} {trail : Trail}
    (same : trail.opened = reading.opened.map OpenLoop.bracket)
    (taken : reading.takeAll? tokens = some after) :
    (tokens.foldl Trail.take trail).opened = after.opened.map OpenLoop.bracket := by
  induction tokens generalizing reading trail with
  | nil =>
      cases taken
      exact same
  | cons token rest ih =>
      rw [takeAll?_cons, Option.bind_eq_some_iff] at taken
      obtain ⟨middle, first, others⟩ := taken
      refine ih ?_ others
      rcases reading.take?_cases token with
        ⟨node, found, took⟩ | ⟨opens, took⟩ | ⟨inner, outer, closes, opened, took⟩ |
        ⟨_, _, took⟩ <;>
      rw [took] at first <;> cases first
      · cases single : token.command <;> simp_all [Trail.take, Tree.instruction?]
      · simp [Trail.take, opens, same]
      · simp [Trail.take, closes, same, opened]

/-- The loops that the builder is inside of and the brackets that the stream has open are the same,
though neither of them knows of the other. -/
theorem ofTaken_opened {tokens : List Token} {reading : Reading}
    (taken : takeAll? {} tokens = some reading) :
    (Trail.ofTaken tokens).opened = reading.opened.map OpenLoop.bracket :=
  trail_opened rfl taken

theorem blamed?_of_open {tokens : List Token} {reading : Reading}
    (taken : takeAll? {} tokens = some reading) {inner : OpenLoop} {outer : List OpenLoop}
    (opened : reading.opened = inner :: outer) :
    (Trail.ofTaken tokens).blamed? = some inner.bracket := by
  rw [Trail.blamed?, ofTaken_opened taken, opened]
  rfl

theorem blamed?_of_stray {read : List Token} {reading : Reading}
    (taken : takeAll? {} read = some reading) (opened : reading.opened = []) {bracket : Token}
    (closes : bracket.command = .closeLoop) :
    (Trail.ofTaken (read ++ [bracket])).blamed? = some bracket := by
  have none : (Trail.ofTaken read).opened = [] := by
    rw [ofTaken_opened taken, opened]
    rfl
  rw [Trail.ofTaken, List.foldl_append, ← Trail.ofTaken]
  simp [Trail.blamed?, Trail.take, closes, none]

end Reading

end TapeTree
