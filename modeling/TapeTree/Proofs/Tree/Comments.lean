import TapeTree.Program
import TapeTree.Proofs.Tree.Joining
import TapeTree.Proofs.Tree.Resuming

/-! Comments do not matter. Two texts with the same commands have the same tree and run in the same
way, and if one of them is refused, so is the other, for the same bracket. -/

namespace TapeTree

open Command

/-- Answers about two texts that are the same, but for the places of the bracket that a refusal
is about. -/
inductive SameButPlaces {Answer : Type} (first second : String) :
    Except ParseError Answer → Except ParseError Answer → Prop where
  | answered (answer : Answer) : SameButPlaces first second (.ok answer) (.ok answer)
  | refused {report other : Diagnostic} {index : Nat} {bracket : Command} {words : String}
      (blamed : Blamed (ofSource first) index bracket words)
      (wording : report.Says words) (otherWording : other.Says words)
      (points : report.PointsAt first index bracket)
      (otherPoints : other.PointsAt second index bracket) :
      SameButPlaces first second (.error (.unmatched report)) (.error (.unmatched other))

theorem SameButPlaces.map {Answer Further : Type} {first second : String}
    {answer other : Except ParseError Answer} (same : SameButPlaces first second answer other)
    (use : Answer → Further) : SameButPlaces first second (answer.map use) (other.map use) := by
  cases same with
  | answered answer => exact .answered (use answer)
  | refused blamed wording otherWording points otherPoints =>
      exact .refused blamed wording otherWording points otherPoints

namespace Command

theorem innermost_unique {before after other rest : List Command} (balanced : IsBalanced after)
    (balancedRest : IsBalanced rest)
    (same : before ++ .openLoop :: after = other ++ .openLoop :: rest) : before = other := by
  rcases List.append_eq_append_iff.mp same with ⟨more, rfl, later⟩ | ⟨more, rfl, later⟩
  · cases more with
    | nil => simp
    | cons command more =>
        obtain ⟨_, rfl⟩ := List.cons.inj later
        exact absurd balancedRest.1 (not_closesOpened_of_isBalanced balanced)
  · cases more with
    | nil => simp
    | cons command more =>
        obtain ⟨_, rfl⟩ := List.cons.inj later
        exact absurd balanced.1 (not_closesOpened_of_isBalanced balancedRest)

theorem stray_unique {before after other rest : List Command} (balanced : IsBalanced before)
    (balancedOther : IsBalanced other)
    (same : before ++ .closeLoop :: after = other ++ .closeLoop :: rest) : before = other := by
  have overrun := isOverrun_of_isBalanced balanced after
  rw [same] at overrun
  have starts := overrun.unique (isOverrun_of_isBalanced balancedOther rest)
  exact List.append_cancel_right starts

theorem not_closesOpened_of_stray {before : List Command} (balanced : IsBalanced before)
    (after : List Command) : ¬ ClosesOpened (before ++ .closeLoop :: after) := by
  intro closes
  exact not_isOverrun_of_closesOpened closes _ (isOverrun_of_isBalanced balanced after)

theorem Blamed.unique {commands : List Command} {index other : Nat} {bracket partner : Command}
    {words reason : String} (blamed : Blamed commands index bracket words)
    (also : Blamed commands other partner reason) :
    index = other ∧ bracket = partner ∧ words = reason := by
  cases blamed with
  | @stray before after balanced =>
      generalize whole : before ++ .closeLoop :: after = commands at also
      cases also with
      | stray balancedOther =>
          rw [stray_unique balanced balancedOther whole]
          exact ⟨rfl, rfl, rfl⟩
      | unclosed _ closes =>
          rw [← whole] at closes
          exact absurd closes (not_closesOpened_of_stray balanced after)
  | @unclosed before after balanced closes =>
      generalize whole : before ++ .openLoop :: after = commands at also closes
      cases also with
      | stray balancedOther => exact absurd closes (not_closesOpened_of_stray balancedOther _)
      | unclosed balancedOther _ =>
          rw [innermost_unique balanced balancedOther whole]
          exact ⟨rfl, rfl, rfl⟩

end Command

namespace Tree

theorem parse_ok_of_same {first second : String} (same : ofSource first = ofSource second)
    {strict : Bool} {tree : Tree} (parsed : parse strict first = .ok tree) :
    parse strict second = .ok tree := by
  have nested := nestedWithin_of_parse parsed
  have written := commands?_of_parse nested parsed
  have accepted : ∃ other, parse strict second = .ok other := by
    have nestedSecond := nested
    rw [same] at nestedSecond
    cases strict with
    | false =>
        rw [parse_false_ok_iff nestedSecond, ← same]
        exact (parse_false_ok_iff nested).mp ⟨tree, parsed⟩
    | true =>
        rw [parse_true_ok_iff nestedSecond, ← same]
        exact (parse_true_ok_iff nested).mp ⟨tree, parsed⟩
  obtain ⟨other, parsedOther⟩ := accepted
  have also := commands?_of_parse (nestedWithin_of_parse parsedOther) parsedOther
  rw [← same] at also
  rw [parsedOther, eq_of_commands? also written]

theorem parse_sameButPlaces {first second : String} (same : ofSource first = ofSource second)
    (nested : NestedWithin nestingLimit (ofSource first)) (strict : Bool) :
    SameButPlaces first second (parse strict first) (parse strict second) := by
  cases parsed : parse strict first with
  | ok tree =>
      rw [parse_ok_of_same same parsed]
      exact .answered tree
  | error error =>
      cases parsedOther : parse strict second with
      | ok tree =>
          rw [parse_ok_of_same same.symm parsedOther] at parsed
          cases parsed
      | error other =>
          have nestedSecond := nested
          rw [same] at nestedSecond
          obtain ⟨report, index, bracket, words, rfl, blamed, wording, points⟩ :=
            blamed_of_refused nested parsed
          obtain ⟨report, _, _, _, rfl, also, otherWording, otherPoints⟩ :=
            blamed_of_refused nestedSecond parsedOther
          rw [← same] at also
          obtain ⟨rfl, rfl, rfl⟩ := blamed.unique also
          exact .refused blamed wording otherWording points otherPoints

end Tree

def Interchangeable (first second : String) : Prop :=
  (∀ strict, SameButPlaces first second (Tree.parse strict first) (Tree.parse strict second)) ∧
  ∀ options stepLimit fuel input, SameButPlaces first second
    (runSource options stepLimit fuel first input) (runSource options stepLimit fuel second input)

theorem interchangeable_of_same {first second : String} (same : ofSource first = ofSource second)
    (nested : NestedWithin nestingLimit (ofSource first)) : Interchangeable first second := by
  constructor
  · intro strict
    exact Tree.parse_sameButPlaces same nested strict
  · intro options stepLimit fuel input
    exact ((Tree.parse_sameButPlaces same nested options.strict).map _).map _

/-- Texts with the same commands, of which at most 1000 loops are open at once, can stand for one
another. In particular a text can be stripped of its comments, once and for all. -/
theorem comments_are_irrelevant :
    (∀ first second, ofSource first = ofSource second → NestedWithin 1000 (ofSource first) →
      Interchangeable first second) ∧
    ∀ source, strip (strip source) = strip source ∧
      (NestedWithin 1000 (ofSource source) → Interchangeable source (strip source)) := by
  have limit : 1000 ≤ nestingLimit := by decide
  have stripped (source : String) : ofSource (strip source) = ofSource source :=
    ofSource_toSource (ofSource source)
  refine ⟨fun first second same nested => ?_, fun source => ⟨?_, fun nested => ?_⟩⟩
  · exact interchangeable_of_same same (nested.mono limit)
  · rw [strip, stripped, ← strip]
  · exact interchangeable_of_same (stripped source).symm (nested.mono limit)

theorem open_loop_between_comments :
    ofSource "go\n [-" = ofSource "[ - on" ∧ NestedWithin 1000 (ofSource "go\n [-") ∧
    (∃ tree, Tree.parse false "go\n [-" = .ok tree ∧ Tree.parse false "[ - on" = .ok tree) ∧
    ∃ report other, Tree.parse true "go\n [-" = .error (.unmatched report) ∧
      Tree.parse true "[ - on" = .error (.unmatched other) ∧
      (report.line, report.column) = (2, 2) ∧ (other.line, other.column) = (1, 1) ∧
      report.PointsAt "go\n [-" 0 .openLoop ∧ other.PointsAt "[ - on" 0 .openLoop := by
  have commands : ofSource "go\n [-" = [.openLoop, .decrement] := by decide
  have same : ofSource "go\n [-" = ofSource "[ - on" := by decide
  have nested : NestedWithin 1000 (ofSource "go\n [-") := by
    rw [commands, NestedWithin]
    simp [forall_start_cons, depth]
  obtain ⟨parsing, _⟩ := comments_are_irrelevant.1 _ _ same nested
  refine ⟨same, nested, ?_, ?_⟩
  · have parsed : Tree.parse false "go\n [-" = .ok (.block [.loop (.block [.add 255])]) := rfl
    have lenient := parsing false
    rw [parsed] at lenient
    refine ⟨_, parsed, ?_⟩
    generalize Tree.parse false "[ - on" = answer at lenient
    cases lenient
    rfl
  · have refused : Tree.parse true "go\n [-" = .error _ := rfl
    have otherRefused : Tree.parse true "[ - on" = .error _ := rfl
    have strictly := parsing true
    rw [refused, otherRefused] at strictly
    have known : Blamed ([] ++ .openLoop :: [.decrement]) 0 .openLoop "Unmatched '['" := by
      apply Blamed.unclosed <;> simp [IsBalanced, ClosesOpened, forall_start_cons, depth]
    cases strictly with
    | refused blamed _ _ points otherPoints =>
        rw [commands] at blamed
        obtain ⟨rfl, rfl, _⟩ := blamed.unique known
        exact ⟨_, _, refused, otherRefused, rfl, rfl, points, otherPoints⟩

end TapeTree
