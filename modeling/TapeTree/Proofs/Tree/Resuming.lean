import TapeTree.Proofs.Tree.Places

/-! Building again and again from the same commands. A call reads up to the first closing bracket
without a partner, or to the end, and the next one goes on behind that. -/

namespace TapeTree

namespace Command

def OpensAtMost (most : Nat) (commands : List Command) : Prop :=
  ∀ start, start <+: commands → ClosesOpened start → depth start ≤ most

/-- The shortest start of the commands that closes one loop more than it opens. -/
structure IsOverrun (start commands : List Command) : Prop where
  within : start <+: commands
  excess : depth start = -1
  shortest : ∀ other, other <+: commands → depth other = -1 → start.length ≤ other.length

def LeavesOpen (commands : List Command) : Prop :=
  ∃ before after, commands = before ++ .openLoop :: after ∧ ClosesOpened after

theorem OpensAtMost.nestedWithin {most : Nat} {start commands : List Command}
    (shallow : OpensAtMost most commands) (within : start <+: commands)
    (closes : ClosesOpened start) : NestedWithin most start := by
  intro shorter inside
  exact shallow shorter (inside.trans within) (closes.start inside)

theorem not_isOverrun_of_closesOpened {commands : List Command} (closes : ClosesOpened commands)
    (start : List Command) : ¬ IsOverrun start commands := by
  intro overrun
  have more := closes start overrun.within
  have less := overrun.excess
  omega

theorem isOverrun_of_isBalanced {before : List Command} (balanced : IsBalanced before)
    (rest : List Command) :
    IsOverrun (before ++ [.closeLoop]) (before ++ .closeLoop :: rest) := by
  constructor
  · exact ⟨rest, by simp⟩
  · rw [depth_append, balanced.2, depth_closeLoop]
    omega
  · intro other within deep
    rcases start_append within with shorter | ⟨further, rfl, _⟩
    · have closes := balanced.1 other shorter
      omega
    · have nonempty : further ≠ [] := by
        rintro rfl
        rw [List.append_nil, balanced.2] at deep
        omega
      have longer := List.length_pos_iff.mpr nonempty
      rw [List.length_append, List.length_append, List.length_singleton]
      omega

theorem IsOverrun.unique {start other commands : List Command} (overrun : IsOverrun start commands)
    (also : IsOverrun other commands) : start = other := by
  have shorter := overrun.shortest other also.within also.excess
  have longer := also.shortest start overrun.within overrun.excess
  have within := List.prefix_of_prefix_length_le overrun.within also.within shorter
  exact within.eq_of_length_le longer

end Command

namespace Tree

open Command Reading

def IsRawOf (commands : List Command) (tree : Tree) : Prop :=
  commands? tree = some (commands ++ List.replicate (depth commands).toNat .closeLoop)

def Refused (words : String) (result : Except BuildError Tree) : Prop :=
  ∃ error, result = .error error ∧ error.summary = words

/-- What a call does with the commands that are left: which of them it reads, and its result. -/
structure Reads (mode : BuildMode) (left piece : List Command) (result : Except BuildError Tree) :
    Prop where
  loopEnds : ∀ start, IsOverrun start left → mode.insideLoop = true →
    piece = start ∧ ∃ tree, result = .ok tree ∧ tree.IsRawOf start.dropLast
  straysOut : ∀ start, IsOverrun start left → mode.insideLoop = false →
    piece = start ∧ Refused "Unmatched ']'" result
  leftOpen : (∀ start, ¬ IsOverrun start left) →
    mode.strict = true ∧ (mode.insideLoop = true ∨ LeavesOpen left) →
    piece = left ∧ Refused "Unmatched '['" result
  ends : (∀ start, ¬ IsOverrun start left) →
    ¬ (mode.strict = true ∧ (mode.insideLoop = true ∨ LeavesOpen left)) →
    piece = left ∧ ∃ tree, result = .ok tree ∧ tree.IsRawOf left

/-- Calls one after the other, with the piece that each of them reads of the tokens, its result,
and what is left after all of them. A call need only do as it should if it has no more than 1000
loops open at once. -/
inductive Resumes : List BuildMode → List Token → List (List Token) →
    List (Except BuildError Tree) → List Token → Prop where
  | done (tokens : List Token) : Resumes [] tokens [] [] tokens
  | call {mode : BuildMode} {piece rest last : List Token} {result : Except BuildError Tree}
      {modes : List BuildMode} {pieces : List (List Token)}
      {results : List (Except BuildError Tree)}
      (reads : OpensAtMost 1000 ((piece ++ rest).map Token.command) →
        Reads mode ((piece ++ rest).map Token.command) (piece.map Token.command) result)
      (others : Resumes modes rest pieces results last) :
      Resumes (mode :: modes) (piece ++ rest) (piece :: pieces) (result :: results) last

theorem Resumes.concat {modes : List BuildMode} {tokens last : List Token}
    {pieces : List (List Token)} {results : List (Except BuildError Tree)}
    (resumes : Resumes modes tokens pieces results last) : pieces.flatten ++ last = tokens := by
  induction resumes with
  | done => rfl
  | call _ _ ih => rw [List.flatten_cons, List.append_assoc, ih]

theorem leavesOpen_of_opened {tokens : List Token} {reading : Reading}
    (taken : takeAll? {} tokens = some reading) (opened : reading.opened ≠ []) :
    LeavesOpen (tokens.map Token.command) := by
  have none : Accounts ({} : Reading).opened [] := balanced_assembled.nil
  have accounts := none.takeAll? taken
  cases stack : reading.opened with
  | nil => exact absurd stack opened
  | cons inner outer =>
      rw [stack] at accounts
      obtain ⟨around, inside, split, opens, closed, _⟩ := accounts
      rw [List.nil_append] at split
      refine ⟨around.map Token.command, inside.map Token.command, ?_, closed.1⟩
      rw [split, List.map_append, List.map_cons, opens]

theorem leavesOpen_iff_opened {tokens : List Token} {reading : Reading}
    (taken : takeAll? {} tokens = some reading) :
    LeavesOpen (tokens.map Token.command) ↔ reading.opened ≠ [] := by
  constructor
  · intro leaves none
    have balanced := isBalanced_of_taken taken none
    obtain ⟨before, after, split, closes⟩ := leaves
    rw [split] at balanced
    exact not_closesOpened_of_isBalanced balanced closes
  · exact leavesOpen_of_opened taken

/-- A block is written as what was read of it and the ends of the loops that are still open. -/
theorem isRawOf_closeAll {tokens : List Token} {reading : Reading}
    (taken : takeAll? {} tokens = some reading) :
    IsRawOf (tokens.map Token.command) (closeAll reading.opened reading.before) := by
  have written := takeAll?_written (show written? {} = some [] from rfl) taken
  have opened := takeAll?_opened taken
  have count : (depth (tokens.map Token.command)).toNat = reading.opened.length := by
    simp only [List.length_nil] at opened
    omega
  rw [IsRawOf, count]
  exact commands?_closeAll written

theorem build_reads_whole {tokens : List Token} {reading : Reading}
    (taken : takeAll? {} tokens = some reading)
    (shallow : OpensAtMost 1000 (tokens.map Token.command)) (mode : BuildMode) :
    (build mode tokens).rest = [] ∧
      Reads mode (tokens.map Token.command) (tokens.map Token.command)
        (build mode tokens).result := by
  have closes := (taken_iff_closesOpened tokens).mp ⟨reading, taken⟩
  have nested := shallow.nestedWithin (List.prefix_refl _) closes
  have none := not_isOverrun_of_closesOpened closes
  rw [build_of_taken taken (nested.mono (by decide))]
  by_cases refused : mode.strict = true ∧ (mode.insideLoop = true ∨ reading.opened ≠ [])
  · rw [if_pos (by simpa using refused)]
    rw [← leavesOpen_iff_opened taken] at refused
    refine ⟨rfl, fun start overrun => absurd overrun (none start),
      fun start overrun => absurd overrun (none start), fun _ _ => ?_, fun _ allowed => ?_⟩
    · exact ⟨rfl, _, rfl, rfl⟩
    · exact absurd refused allowed
  · rw [if_neg (by simpa using refused)]
    rw [← leavesOpen_iff_opened taken] at refused
    refine ⟨rfl, fun start overrun => absurd overrun (none start),
      fun start overrun => absurd overrun (none start), fun _ left => ?_, fun _ _ => ?_⟩
    · exact absurd left refused
    · exact ⟨rfl, _, rfl, isRawOf_closeAll taken⟩

theorem build_reads_start {read rest : List Token} {bracket : Token} {reading : Reading}
    (taken : takeAll? {} read = some reading) (opened : reading.opened = [])
    (closes : bracket.command = .closeLoop)
    (shallow : OpensAtMost 1000 ((read ++ bracket :: rest).map Token.command))
    (mode : BuildMode) :
    (build mode (read ++ bracket :: rest)).rest = rest ∧
      Reads mode ((read ++ bracket :: rest).map Token.command)
        ((read ++ [bracket]).map Token.command) (build mode (read ++ bracket :: rest)).result := by
  have balanced := isBalanced_of_taken taken opened
  have within : read.map Token.command <+: (read ++ bracket :: rest).map Token.command :=
    (List.prefix_append _ _).map _
  have nested := shallow.nestedWithin within balanced.1
  have piece : (read ++ [bracket]).map Token.command = read.map Token.command ++ [.closeLoop] := by
    rw [List.map_append, List.map_singleton, closes]
  have left : (read ++ bracket :: rest).map Token.command =
      read.map Token.command ++ .closeLoop :: rest.map Token.command := by
    rw [List.map_append, List.map_cons, closes]
  have overrun := isOverrun_of_isBalanced balanced (rest.map Token.command)
  rw [build_of_stray taken opened closes (nested.mono (by decide)), left, piece]
  have raw := isRawOf_closeAll taken
  rw [opened] at raw
  cases inside : mode.insideLoop with
  | true =>
      refine ⟨rfl, fun start also _ => ?_, fun _ _ outside => ?_, fun none => ?_, fun none => ?_⟩
      · rw [← overrun.unique also, List.dropLast_concat]
        exact ⟨rfl, _, rfl, raw⟩
      · rw [inside] at outside
        cases outside
      · exact absurd overrun (none _)
      · exact absurd overrun (none _)
  | false =>
      refine ⟨rfl, fun _ _ loop => ?_, fun start also _ => ?_, fun none => ?_, fun none => ?_⟩
      · rw [inside] at loop
        cases loop
      · exact ⟨overrun.unique also, _, rfl, rfl⟩
      · exact absurd overrun (none _)
      · exact absurd overrun (none _)

theorem build_reads (mode : BuildMode) (tokens : List Token) :
    ∃ piece, tokens = piece ++ (build mode tokens).rest ∧
      (OpensAtMost 1000 (tokens.map Token.command) →
        Reads mode (tokens.map Token.command) (piece.map Token.command)
          (build mode tokens).result) := by
  by_cases shallow : OpensAtMost 1000 (tokens.map Token.command)
  · cases took : takeAll? {} tokens with
    | some reading =>
        obtain ⟨none, reads⟩ := build_reads_whole took shallow mode
        exact ⟨tokens, by rw [none, List.append_nil], fun _ => reads⟩
    | none =>
        obtain ⟨read, bracket, rest, reading, rfl, taken, opened, closes⟩ := takeAll?_eq_none took
        obtain ⟨left, reads⟩ := build_reads_start taken opened closes shallow mode
        exact ⟨read ++ [bracket], by simp [left], fun _ => reads⟩
  · -- of a call that may open too many loops no more is said
    obtain ⟨piece, whole⟩ := (buildBlock mode nestingLimit [] tokens).property
    exact ⟨piece, whole.symm, fun assumed => absurd assumed shallow⟩

/-- Building again and again from the same tokens: each call goes on where the one before it
stopped, and the pieces they read and what is left make up the tokens again. -/
theorem buildEach_resumes (modes : List BuildMode) (tokens : List Token) :
    ∃ pieces : List (List Token), pieces.flatten ++ (buildEach modes tokens).2 = tokens ∧
      Resumes modes tokens pieces (buildEach modes tokens).1 (buildEach modes tokens).2 := by
  have resumes : ∃ pieces,
      Resumes modes tokens pieces (buildEach modes tokens).1 (buildEach modes tokens).2 := by
    induction modes generalizing tokens with
    | nil => exact ⟨[], .done tokens⟩
    | cons mode modes ih =>
        obtain ⟨piece, whole, reads⟩ := build_reads mode tokens
        obtain ⟨pieces, others⟩ := ih (build mode tokens).rest
        refine ⟨piece :: pieces, ?_⟩
        have call := Resumes.call (by rwa [← whole]) others
        rw [← whole] at call
        exact call
  obtain ⟨pieces, each⟩ := resumes
  exact ⟨pieces, each.concat, each⟩

theorem body_and_rest_read :
    OpensAtMost 1000 [.increment, .closeLoop, .decrement] ∧ OpensAtMost 1000 [.decrement] ∧
    (buildEach [{ insideLoop := true }, {}] (Token.ofSource "+]-")).1 =
      [.ok (.block [.add 1]), .ok (.block [.add 255])] ∧
    ∃ body rest, body ++ rest = Token.ofSource "+]-" ∧
      body.map Token.command = [.increment, .closeLoop] ∧
      rest.map Token.command = [.decrement] := by
  have shallow : OpensAtMost 1000 [.increment, .closeLoop, .decrement] := by
    rw [OpensAtMost]
    simp [forall_start_cons, depth]
  have shallowRest : OpensAtMost 1000 [.decrement] := by
    rw [OpensAtMost]
    simp [forall_start_cons, depth]
  have balanced : IsBalanced [.increment] := by
    simp [IsBalanced, ClosesOpened, forall_start_cons, depth]
  have overrun := isOverrun_of_isBalanced balanced [.decrement]
  have closes : ClosesOpened [.decrement] := by
    simp [ClosesOpened, forall_start_cons, depth]
  have commands : (Token.ofSource "+]-").map Token.command =
      [.increment, .closeLoop, .decrement] := by decide
  have none : (buildEach [{ insideLoop := true }, {}] (Token.ofSource "+]-")).2 = [] := rfl
  obtain ⟨pieces, _, resumes⟩ :=
    buildEach_resumes [{ insideLoop := true }, {}] (Token.ofSource "+]-")
  rw [none] at resumes
  refine ⟨shallow, shallowRest, rfl, ?_⟩
  generalize (buildEach _ _).1 = results at resumes
  generalize Token.ofSource "+]-" = tokens at commands resumes ⊢
  cases resumes with
  | @call _ body left _ _ _ _ _ reads others =>
      rw [commands] at reads
      obtain ⟨read, _⟩ := (reads shallow).loopEnds _ overrun rfl
      rw [List.map_append, read] at commands
      have further : left.map Token.command = [.decrement] := by simpa using commands
      cases others with
      | @call _ rest _ _ _ _ _ _ readsOn last =>
          cases last
          rw [further] at readsOn
          have whole := not_isOverrun_of_closesOpened closes
          obtain ⟨readRest, _⟩ := (readsOn shallowRest).ends whole (by simp)
          exact ⟨body, rest, by rw [List.append_nil], read, readRest⟩

end Tree

end TapeTree
