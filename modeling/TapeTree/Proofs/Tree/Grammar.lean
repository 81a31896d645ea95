import TapeTree.Proofs.Tree.Reading

/-! The grammar of source texts. Parsing accepts the texts in which no bracket closes a loop that
is not open, and it is the inverse of writing. -/

namespace TapeTree

def Command.ClosesOpened (commands : List Command) : Prop :=
  ∀ start, start <+: commands → 0 ≤ depth start

def Command.IsBalanced (commands : List Command) : Prop :=
  ClosesOpened commands ∧ depth commands = 0

theorem Command.ClosesOpened.start {start commands : List Command}
    (closes : ClosesOpened commands) (within : start <+: commands) : ClosesOpened start := by
  intro shorter inside
  exact closes shorter (inside.trans within)

theorem Command.NestedWithin.start {most : Nat} {start commands : List Command}
    (nested : NestedWithin most commands) (within : start <+: commands) :
    NestedWithin most start := by
  intro shorter inside
  exact nested shorter (inside.trans within)

theorem Command.ClosesOpened.append {first second : List Command} (balanced : IsBalanced first)
    (closes : ClosesOpened second) : ClosesOpened (first ++ second) := by
  rw [ClosesOpened, forall_start_append]
  refine ⟨balanced.1, fun start within => ?_⟩
  rw [depth_append, balanced.2, Int.zero_add]
  exact closes start within

theorem Command.not_closesOpened_of_isBalanced {front back : List Command}
    (balanced : IsBalanced (front ++ .openLoop :: back)) : ¬ ClosesOpened back := by
  intro closes
  obtain ⟨every, flat⟩ := balanced
  have before := every front (List.prefix_append _ _)
  have after := closes back (List.prefix_refl _)
  rw [depth_append, depth_cons, depth_openLoop] at flat
  omega

namespace Tree

open Command Reading

theorem balanced_assembled : Assembled IsBalanced where
  nil := by
    refine ⟨?_, rfl⟩
    intro start within
    simp [List.prefix_nil.mp within]
  single := by
    intro command node found
    have flat := depth_of_instruction found
    refine ⟨?_, flat⟩
    intro start within
    rcases List.prefix_cons_iff.mp within with rfl | ⟨rest, rfl, none⟩
    · simp
    · simp [List.prefix_nil.mp none, flat]
  append := by
    intro first second balanced balancedSecond
    refine ⟨.append balanced balancedSecond.1, ?_⟩
    rw [depth_append, balanced.2, balancedSecond.2]
    rfl
  loop := by
    rintro inner ⟨closes, flat⟩
    constructor
    · intro start within
      rcases List.prefix_cons_iff.mp within with rfl | ⟨further, rfl, inside⟩
      · simp
      · rw [depth_cons, depth_openLoop]
        rcases start_append inside with shorter | ⟨last, rfl, closing⟩
        · have deep := closes further shorter
          omega
        · rw [depth_append, flat]
          rcases List.prefix_cons_iff.mp closing with rfl | ⟨rest, rfl, none⟩
          · rw [depth_nil]
            omega
          · rw [List.prefix_nil.mp none, depth_closeLoop]
            omega
    · rw [depth_cons, depth_append, flat]
      rfl

theorem taken_iff_closesOpened (tokens : List Token) :
    (∃ reading, takeAll? {} tokens = some reading) ↔
      ClosesOpened (tokens.map Token.command) := by
  rw [takeAll?_isSome_iff, ClosesOpened]
  simp

theorem takeAll?_isSome_iff_closesOpened (source : String) :
    (∃ reading, takeAll? {} (Token.ofSource source) = some reading) ↔
      ClosesOpened (ofSource source) := by
  rw [taken_iff_closesOpened, Token.ofSource_map_command]

theorem isBalanced_of_taken {tokens : List Token} {reading : Reading}
    (taken : takeAll? {} tokens = some reading) (opened : reading.opened = []) :
    IsBalanced (tokens.map Token.command) := by
  refine ⟨(taken_iff_closesOpened tokens).mp ⟨reading, taken⟩, ?_⟩
  have none := takeAll?_opened taken
  rw [opened] at none
  simpa using none.symm

theorem room_of_nested {tokens : List Token}
    (nested : NestedWithin nestingLimit (tokens.map Token.command)) (start : List Command)
    (within : start <+: tokens.map Token.command) :
    (([] : List OpenLoop).length : Int) + depth start ≤ nestingLimit := by
  simpa using nested start within

theorem build_of_taken {tokens : List Token} {reading : Reading}
    (taken : takeAll? {} tokens = some reading)
    (nested : NestedWithin nestingLimit (tokens.map Token.command)) (mode : BuildMode) :
    build mode tokens =
      if mode.strict && (mode.insideLoop || !reading.opened.isEmpty) then
        ⟨.error .unmatchedOpen, []⟩
      else ⟨.ok (closeAll reading.opened reading.before), []⟩ := by
  have wentOn := goOn_takeAll taken (room_of_nested nested) mode []
  rw [List.append_nil, ← build_eq_goOn, goOn_nil] at wentOn
  exact wentOn

theorem build_of_stray {read rest : List Token} {bracket : Token} {reading : Reading}
    (taken : takeAll? {} read = some reading) (opened : reading.opened = [])
    (closes : bracket.command = .closeLoop)
    (nested : NestedWithin nestingLimit (read.map Token.command)) (mode : BuildMode) :
    build mode (read ++ bracket :: rest) =
      if mode.insideLoop then ⟨.ok (blockOfReverse reading.before), rest⟩
      else ⟨.error .unmatchedClose, rest⟩ := by
  rw [build_eq_goOn, goOn_takeAll taken (room_of_nested nested), goOn_close opened closes]

theorem parse_of_taken {source : String} {reading : Reading}
    (taken : takeAll? {} (Token.ofSource source) = some reading)
    (nested : NestedWithin nestingLimit (ofSource source)) (strict : Bool) :
    parse strict source =
      if strict && !reading.opened.isEmpty then
        .error (BuildError.inSource source (reading.opened.head?.map OpenLoop.bracket)
          .unmatchedOpen)
      else .ok (closeAll reading.opened reading.before) := by
  rw [← Token.ofSource_map_command] at nested
  simp only [parse, build_of_taken taken nested, Bool.false_or]
  split
  · rename_i refused
    cases opened : reading.opened with
    | nil => simp [opened] at refused
    | cons inner outer =>
        rw [List.length_nil, Nat.sub_zero, List.take_length, blamed?_of_open taken opened]
        rfl
  · rfl

theorem parse_of_stray {source : String} (stopped : takeAll? {} (Token.ofSource source) = none)
    (nested : NestedWithin nestingLimit (ofSource source)) :
    ∃ read bracket rest, Token.ofSource source = read ++ bracket :: rest ∧
      bracket.command = .closeLoop ∧ IsBalanced (read.map Token.command) ∧
      ∀ strict, parse strict source =
        .error (BuildError.inSource source (some bracket) .unmatchedClose) := by
  obtain ⟨read, bracket, rest, reading, tokens, taken, opened, closes⟩ := takeAll?_eq_none stopped
  rw [← Token.ofSource_map_command, tokens, List.map_append] at nested
  have nestedRead := nested.start (List.prefix_append _ _)
  refine ⟨read, bracket, rest, tokens, closes, isBalanced_of_taken taken opened, fun strict => ?_⟩
  have upTo : (read ++ bracket :: rest).take ((read ++ bracket :: rest).length - rest.length) =
      read ++ [bracket] := by
    rw [List.append_cons]
    apply List.take_left'
    simp only [List.length_append, List.length_singleton]
    omega
  simp only [parse, tokens, build_of_stray taken opened closes nestedRead, Bool.false_eq_true,
    if_false, upTo, blamed?_of_stray taken opened closes]
  rfl

theorem parse_of_not_closesOpened {source : String}
    (stray : ¬ ClosesOpened (ofSource source))
    (nested : NestedWithin nestingLimit (ofSource source)) (strict : Bool) (tree : Tree) :
    parse strict source ≠ .ok tree := by
  rw [← takeAll?_isSome_iff_closesOpened] at stray
  cases took : takeAll? {} (Token.ofSource source) with
  | some reading => exact absurd ⟨reading, took⟩ stray
  | none =>
      obtain ⟨_, _, _, _, _, _, refused⟩ := parse_of_stray took nested
      rw [refused strict]
      simp

theorem taken_of_parse {strict : Bool} {source : String} {tree : Tree}
    (parsed : parse strict source = .ok tree)
    (nested : NestedWithin nestingLimit (ofSource source)) :
    ∃ reading, takeAll? {} (Token.ofSource source) = some reading ∧
      tree = closeAll reading.opened reading.before ∧
      (reading.opened.length : Int) = depth (ofSource source) ∧
      (strict = true → reading.opened = []) := by
  by_cases closes : ClosesOpened (ofSource source)
  · obtain ⟨reading, taken⟩ := (takeAll?_isSome_iff_closesOpened source).mpr closes
    have opened := takeAll?_opened taken
    rw [Token.ofSource_map_command] at opened
    rw [parse_of_taken taken nested] at parsed
    split at parsed
    · cases parsed
    · rename_i allowed
      cases parsed
      refine ⟨reading, taken, rfl, by simpa using opened, ?_⟩
      rintro rfl
      simpa using allowed
  · exact absurd parsed (parse_of_not_closesOpened closes nested strict tree)

theorem parse_false_ok_iff {source : String}
    (nested : NestedWithin nestingLimit (ofSource source)) :
    (∃ tree, parse false source = .ok tree) ↔ ClosesOpened (ofSource source) := by
  rw [← takeAll?_isSome_iff_closesOpened]
  constructor
  · rintro ⟨tree, parsed⟩
    obtain ⟨reading, taken, _⟩ := taken_of_parse parsed nested
    exact ⟨reading, taken⟩
  · rintro ⟨reading, taken⟩
    exact ⟨_, parse_of_taken taken nested false⟩

theorem parse_true_ok_iff {source : String}
    (nested : NestedWithin nestingLimit (ofSource source)) :
    (∃ tree, parse true source = .ok tree) ↔
      ClosesOpened (ofSource source) ∧ depth (ofSource source) = 0 := by
  constructor
  · rintro ⟨tree, parsed⟩
    obtain ⟨reading, taken, _, opened, closed⟩ := taken_of_parse parsed nested
    refine ⟨(takeAll?_isSome_iff_closesOpened source).mp ⟨reading, taken⟩, ?_⟩
    rw [← opened, closed rfl]
    rfl
  · rintro ⟨closes, balanced⟩
    obtain ⟨reading, taken⟩ := (takeAll?_isSome_iff_closesOpened source).mpr closes
    have opened := takeAll?_opened taken
    rw [Token.ofSource_map_command, balanced] at opened
    have none : reading.opened = [] := List.eq_nil_of_length_eq_zero (by simpa using opened)
    exact ⟨_, by rw [parse_of_taken taken nested, none]; rfl⟩

theorem parse_false_of_true {source : String} {tree : Tree}
    (nested : NestedWithin nestingLimit (ofSource source))
    (parsed : parse true source = .ok tree) : parse false source = .ok tree := by
  obtain ⟨reading, taken, same, _⟩ := taken_of_parse parsed nested
  rw [parse_of_taken taken nested, same]
  rfl

theorem commands?_of_parse {strict : Bool} {source : String} {tree : Tree}
    (nested : NestedWithin nestingLimit (ofSource source))
    (parsed : parse strict source = .ok tree) :
    commands? tree =
      some (ofSource source ++ List.replicate (depth (ofSource source)).toNat .closeLoop) := by
  obtain ⟨reading, taken, rfl, opened, _⟩ := taken_of_parse parsed nested
  have written := takeAll?_written (show written? {} = some [] from rfl) taken
  rw [List.nil_append, Token.ofSource_map_command] at written
  rw [commands?_closeAll written, ← opened, Int.toNat_natCast]

theorem parse_toSource {tree : Tree} {written : List Command}
    (found : commands? tree = some written) (nested : tree.nesting ≤ nestingLimit)
    (strict : Bool) : parse strict (toSource written) = .ok tree := by
  have same : ofSource (toSource written) = written := ofSource_toSource written
  rw [← same, ← Token.ofSource_map_command] at found
  obtain ⟨children, rfl, taken⟩ := takeAll?_tree tree found [] []
  rw [parse_of_taken taken]
  · simp [closeAll, blockOfReverse]
  · rw [Token.ofSource_map_command, same] at found
    rw [same]
    exact (nestedWithin_nesting found).mono nested

/-- Source texts with at most 1000 loops open at once: which are accepted, and that parsing them
and writing trees are inverse to one another. -/
theorem parse_grammar :
    (∀ source, NestedWithin 1000 (ofSource source) →
      ((∃ tree, parse false source = .ok tree) ↔
        ∀ start, start <+: ofSource source → 0 ≤ depth start) ∧
      ((∃ tree, parse true source = .ok tree) ↔
        (∀ start, start <+: ofSource source → 0 ≤ depth start) ∧ depth (ofSource source) = 0) ∧
      (∀ tree other, parse false source = .ok tree → parse true source = .ok other →
        tree = other) ∧
      ∀ strict tree, parse strict source = .ok tree →
        tree.IsRaw ∧ commands? tree =
          some (ofSource source ++ List.replicate (depth (ofSource source)).toNat .closeLoop)) ∧
    ∀ tree : Tree, tree.IsRaw → tree.nesting ≤ 1000 →
      ∃ written, commands? tree = some written ∧
        ∀ strict, parse strict (toSource written) = .ok tree := by
  have limit : 1000 ≤ nestingLimit := by decide
  constructor
  · intro source nested
    have shallow : NestedWithin nestingLimit (ofSource source) := nested.mono limit
    refine ⟨parse_false_ok_iff shallow, parse_true_ok_iff shallow, ?_, ?_⟩
    · intro tree other parsed strictly
      rw [parse_false_of_true shallow strictly] at parsed
      cases parsed
      rfl
    · intro strict tree parsed
      have written := commands?_of_parse shallow parsed
      exact ⟨(isRaw_iff tree).mpr ⟨_, written⟩, written⟩
  · intro tree raw nested
    obtain ⟨written, found⟩ := (isRaw_iff tree).mp raw
    exact ⟨written, found, parse_toSource found (by omega)⟩

theorem parse_clearing :
    (∃ tree, parse false "clear [-" = .ok tree ∧
      commands? tree = some [.openLoop, .decrement, .closeLoop]) ∧
    (¬ ∃ tree, parse true "clear [-" = .ok tree) ∧
    ∀ strict, parse strict "[-]" = .ok (.block [.loop (.block [.add 255])]) := by
  have commands : ofSource "clear [-" = [.openLoop, .decrement] := by decide
  have nested : NestedWithin 1000 (ofSource "clear [-") := by
    rw [commands, NestedWithin]
    simp [forall_start_cons, depth]
  have raw : IsRaw (.block [.loop (.block [.add 255])]) := by
    simp [IsRaw, IsRawAll, IsRawNode, cellSize]
  obtain ⟨lenient, strictly, _, whole⟩ := parse_grammar.1 "clear [-" nested
  obtain ⟨written, found, parsed⟩ := parse_grammar.2 _ raw (by decide)
  refine ⟨?_, ?_, ?_⟩
  · obtain ⟨tree, accepted⟩ := lenient.mpr (by simp [commands, forall_start_cons, depth])
    refine ⟨tree, accepted, ?_⟩
    rw [(whole false tree accepted).2, commands]
    rfl
  · rw [strictly, commands]
    simp [depth]
  · have same : written = [.openLoop, .decrement, .closeLoop] := by
      simpa [commands?, childrenCommands?, nodeCommands?, cellSize] using found.symm
    rw [same] at parsed
    exact parsed

end Tree

end TapeTree
