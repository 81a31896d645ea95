import TapeTree.Proofs.Tree.Grammar

/-! Source texts put one after the other. The tree of the whole has the nodes of both trees, if
all brackets of the first text have their partners in it. -/

namespace TapeTree

namespace Command

theorem ofSource_append (first second : String) :
    ofSource (first ++ second) = ofSource first ++ ofSource second := by
  simp only [ofSource, String.toList_append, List.filterMap_append]

theorem NestedWithin.append {most : Nat} {first second : List Command}
    (nested : NestedWithin most first) (balanced : IsBalanced first)
    (nestedSecond : NestedWithin most second) : NestedWithin most (first ++ second) := by
  rw [NestedWithin, forall_start_append]
  refine ⟨nested, fun start within => ?_⟩
  rw [depth_append, balanced.2, Int.zero_add]
  exact nestedSecond start within

end Command

namespace Tree

open Command Reading

theorem depth_le_of_goOn {mode : BuildMode} (outside : mode.insideLoop = false)
    {reading : Reading} {tokens : List Token} {tree : Tree}
    (room : reading.opened.length ≤ nestingLimit)
    (built : (goOn mode reading tokens).result = .ok tree) :
    ∀ start, start <+: tokens.map Token.command →
      reading.opened.length + depth start ≤ nestingLimit := by
  induction tokens generalizing reading with
  | nil =>
      intro start within
      rw [List.prefix_nil.mp within, depth_nil]
      omega
  | cons token rest ih =>
      cases took : reading.take? token with
      | none =>
          obtain ⟨closes, opened⟩ := take?_eq_none took
          rw [goOn_close opened closes, outside] at built
          cases built
      | some after =>
          have opened := take?_opened took
          have roomAfter : after.opened.length ≤ nestingLimit := by
            apply Nat.le_of_not_lt
            intro tooDeep
            have opens : token.command = .openLoop := by
              rcases command_cases token.command with ⟨node, found⟩ | opens | closes
              · rw [depth_of_instruction found] at opened
                omega
              · exact opens
              · rw [closes, depth_closeLoop] at opened
                omega
            rw [opens, depth_openLoop] at opened
            rw [goOn_full opens (by omega)] at built
            cases built
          rw [goOn_take took roomAfter] at built
          rw [List.map_cons, forall_start_cons]
          refine ⟨by rw [depth_nil]; omega, fun start within => ?_⟩
          have deep := ih roomAfter built start within
          rw [depth_cons]
          omega

theorem nestedWithin_of_parse {strict : Bool} {source : String} {tree : Tree}
    (parsed : parse strict source = .ok tree) : NestedWithin nestingLimit (ofSource source) := by
  rw [← Token.ofSource_map_command]
  rw [parse] at parsed
  cases built : (build { strict } (Token.ofSource source)).result with
  | error error =>
      simp only [built] at parsed
      cases parsed
  | ok whole =>
      rw [build_eq_goOn] at built
      intro start within
      have deep := depth_le_of_goOn rfl (by simp) built start within
      simpa using deep

theorem eq_of_commands? {tree other : Tree} {written : List Command}
    (found : commands? tree = some written) (same : commands? other = some written) :
    tree = other := by
  obtain ⟨tokens, rfl⟩ : ∃ tokens : List Token, written = tokens.map Token.command :=
    ⟨written.map fun command => ⟨command, 1, 1⟩, by simp [Function.comp_def]⟩
  obtain ⟨children, rfl, taken⟩ := takeAll?_tree tree found [] []
  obtain ⟨others, rfl, alsoTaken⟩ := takeAll?_tree other same [] []
  rw [taken] at alsoTaken
  simpa using alsoTaken

theorem block_of_commands? {tree : Tree} {written : List Command}
    (found : commands? tree = some written) :
    ∃ children, tree = .block children ∧ childrenCommands? children = some written := by
  cases tree with
  | block children =>
      rw [commands?] at found
      exact ⟨children, rfl, found⟩
  | _ => simp [commands?] at found

theorem parse_append_accepted {strict : Bool} {first second : String} {other : Tree}
    (balanced : IsBalanced (ofSource first))
    (nested : NestedWithin nestingLimit (ofSource (first ++ second)))
    (parsed : parse strict second = .ok other) :
    ∃ tree, parse strict (first ++ second) = .ok tree := by
  have nestedOther := nestedWithin_of_parse parsed
  cases strict with
  | false =>
      rw [parse_false_ok_iff nested, ofSource_append]
      exact .append balanced ((parse_false_ok_iff nestedOther).mp ⟨other, parsed⟩)
  | true =>
      obtain ⟨closes, flat⟩ := (parse_true_ok_iff nestedOther).mp ⟨other, parsed⟩
      rw [parse_true_ok_iff nested, ofSource_append, depth_append, balanced.2, flat]
      exact ⟨.append balanced closes, rfl⟩

theorem parse_append {strict : Bool} {first second : String} {tree other : Tree}
    (balanced : IsBalanced (ofSource first)) (parsed : parse strict first = .ok tree)
    (parsedOther : parse strict second = .ok other) :
    ∃ children others, tree = .block children ∧ other = .block others ∧
      parse strict (first ++ second) = .ok (.block (children ++ others)) := by
  have nestedFirst := nestedWithin_of_parse parsed
  have nestedSecond := nestedWithin_of_parse parsedOther
  have nested : NestedWithin nestingLimit (ofSource (first ++ second)) := by
    rw [ofSource_append]
    exact nestedFirst.append balanced nestedSecond
  obtain ⟨whole, accepted⟩ := parse_append_accepted balanced nested parsedOther
  have writtenFirst := commands?_of_parse nestedFirst parsed
  have writtenSecond := commands?_of_parse nestedSecond parsedOther
  have written := commands?_of_parse nested accepted
  obtain ⟨children, rfl, front⟩ := block_of_commands? writtenFirst
  obtain ⟨others, rfl, back⟩ := block_of_commands? writtenSecond
  refine ⟨children, others, rfl, rfl, ?_⟩
  have together := childrenCommands?_append front back
  rw [ofSource_append, depth_append, balanced.2, Int.zero_add] at written
  rw [balanced.2, Int.toNat_zero, List.replicate_zero, List.append_nil, ← List.append_assoc,
    ← commands?] at together
  rw [accepted, eq_of_commands? written together]

theorem isBalanced_of_parse {source : String} {tree : Tree} (parsed : parse true source = .ok tree) :
    IsBalanced (ofSource source) :=
  (parse_true_ok_iff (nestedWithin_of_parse parsed)).mp ⟨tree, parsed⟩

theorem parse_join {pieces : List (String × List Tree)}
    (parsed : ∀ piece ∈ pieces, ∀ strict, parse strict piece.1 = .ok (.block piece.2))
    (strict : Bool) :
    parse strict (String.join (pieces.map Prod.fst)) = .ok (.block (pieces.flatMap Prod.snd)) := by
  induction pieces with
  | nil => cases strict <;> rfl
  | cons piece rest ih =>
      obtain ⟨first, others⟩ := List.forall_mem_cons.mp parsed
      obtain ⟨_, _, ⟨⟩, ⟨⟩, whole⟩ :=
        parse_append (isBalanced_of_parse (first true)) (first strict) (ih others)
      rw [List.map_cons, String.join_cons, whole, List.flatMap_cons]

end Tree

end TapeTree
