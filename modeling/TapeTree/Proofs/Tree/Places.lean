import TapeTree.Proofs.Tree.Grammar

/-! Where parse errors point. A closing bracket that is refused is the first one for which no loop
is open, and a loop that is refused is the innermost of those that the text leaves open. -/

namespace TapeTree

def Text.lastLineLength (text : List Char) : Nat :=
  (text.reverse.takeWhile (· ≠ '\n')).length

theorem Text.lastLineLength_concat (text : List Char) (char : Char) :
    lastLineLength (text ++ [char]) = if char = '\n' then 0 else lastLineLength text + 1 := by
  by_cases newline : char = '\n' <;> simp [lastLineLength, newline]

structure Token.Follows (before : List Char) (char : Char) (token : Token) : Prop where
  command : Command.ofChar? char = some token.command
  line : token.line = 1 + before.count '\n'
  column : token.column = 1 + Text.lastLineLength before

namespace Token

def scanBehind (earlier text : List Char) : List Token :=
  scan (1 + earlier.count '\n') (Text.lastLineLength earlier) text

def behind (earlier : List Char) (command : Command) : Token :=
  ⟨command, 1 + earlier.count '\n', 1 + Text.lastLineLength earlier⟩

theorem ofSource_eq_scanBehind (source : String) :
    ofSource source = scanBehind [] source.toList := rfl

theorem scanBehind_cons (earlier : List Char) (char : Char) (rest : List Char) :
    scanBehind earlier (char :: rest) =
      ((Command.ofChar? char).map (behind earlier)).toList ++
        scanBehind (earlier ++ [char]) rest := by
  rw [scanBehind, scan, scanBehind, Text.lastLineLength_concat, List.count_append]
  by_cases newline : char = '\n'
  · have comment : Command.ofChar? '\n' = none := rfl
    simp [newline, comment, Nat.add_assoc]
  · cases found : Command.ofChar? char <;> simp [newline, behind, Nat.add_comm]

theorem scanBehind_split {earlier text : List Char} {read rest : List Token} {token : Token}
    (scanned : scanBehind earlier text = read ++ token :: rest) :
    ∃ before char after, text = before ++ char :: after ∧
      token.Follows (earlier ++ before) char ∧
      before.filterMap Command.ofChar? = read.map command ∧
      after.filterMap Command.ofChar? = rest.map command := by
  induction text generalizing earlier read with
  | nil => simp [scanBehind, scan] at scanned
  | cons char text ih =>
      rw [scanBehind_cons] at scanned
      cases found : Command.ofChar? char with
      | none =>
          rw [found] at scanned
          obtain ⟨before, further, after, rfl, follows, front, back⟩ := ih scanned
          exact ⟨char :: before, further, after, rfl, by simpa using follows,
            by simpa [found] using front, back⟩
      | some single =>
          rw [found] at scanned
          cases read with
          | nil =>
              obtain ⟨rfl, rfl⟩ := List.cons.inj scanned
              refine ⟨[], char, text, rfl, ?_, rfl, (scan_map_command _ _ text).symm⟩
              rw [List.append_nil]
              exact ⟨found, rfl, rfl⟩
          | cons first read =>
              obtain ⟨rfl, scannedOn⟩ := List.cons.inj scanned
              obtain ⟨before, further, after, rfl, follows, front, back⟩ := ih scannedOn
              exact ⟨char :: before, further, after, rfl, by simpa using follows,
                by simp [found, front, behind], back⟩

theorem ofSource_split {source : String} {read rest : List Token} {token : Token}
    (scanned : ofSource source = read ++ token :: rest) :
    ∃ before char after, source.toList = before ++ char :: after ∧ token.Follows before char ∧
      before.filterMap Command.ofChar? = read.map command ∧
      after.filterMap Command.ofChar? = rest.map command := by
  rw [ofSource_eq_scanBehind] at scanned
  exact scanBehind_split scanned

end Token

/-! The brackets of the loops that are open, among the tokens read. -/

namespace Reading

open Command

/-- Each open loop has its bracket among the tokens, and all others after it have partners. -/
def Accounts : List OpenLoop → List Token → Prop
  | [], tokens => IsBalanced (tokens.map Token.command)
  | inner :: outer, tokens =>
      ∃ around inside, tokens = around ++ inner.bracket :: inside ∧
        inner.bracket.command = .openLoop ∧ IsBalanced (inside.map Token.command) ∧
        Accounts outer around

theorem Accounts.extend {opened : List OpenLoop} {tokens more : List Token}
    (accounts : Accounts opened tokens) (balanced : IsBalanced (more.map Token.command)) :
    Accounts opened (tokens ++ more) := by
  cases opened with
  | nil =>
      rw [Accounts, List.map_append]
      exact Tree.balanced_assembled.append accounts balanced
  | cons inner outer =>
      obtain ⟨around, inside, rfl, opens, closed, outside⟩ := accounts
      refine ⟨around, inside ++ more, by simp, opens, ?_, outside⟩
      rw [List.map_append]
      exact Tree.balanced_assembled.append closed balanced

theorem Accounts.take? {reading after : Reading} {token : Token} {tokens : List Token}
    (accounts : Accounts reading.opened tokens) (taken : reading.take? token = some after) :
    Accounts after.opened (tokens ++ [token]) := by
  rcases reading.take?_cases token with
    ⟨node, found, took⟩ | ⟨opens, took⟩ | ⟨inner, outer, closes, opened, took⟩ | ⟨_, _, took⟩ <;>
  rw [took] at taken <;> cases taken
  · exact accounts.extend (Tree.balanced_assembled.single found)
  · exact ⟨tokens, [], rfl, opens, Tree.balanced_assembled.nil, accounts⟩
  · rw [opened] at accounts
    obtain ⟨around, inside, rfl, opens, closed, outside⟩ := accounts
    have whole : IsBalanced ((inner.bracket :: (inside ++ [token])).map Token.command) := by
      rw [List.map_cons, List.map_append, opens, List.map_singleton, closes]
      exact Tree.balanced_assembled.loop closed
    simpa using outside.extend whole

theorem Accounts.takeAll? {reading after : Reading} {tokens more : List Token}
    (accounts : Accounts reading.opened tokens) (taken : reading.takeAll? more = some after) :
    Accounts after.opened (tokens ++ more) := by
  induction more generalizing reading tokens with
  | nil =>
      cases taken
      simpa using accounts
  | cons token rest ih =>
      rw [takeAll?_cons, Option.bind_eq_some_iff] at taken
      obtain ⟨middle, first, others⟩ := taken
      simpa using ih (accounts.take? first) others

end Reading

/-- The bracket that a refusal of the commands is about, its index, and the reason in words: the
first closing bracket for which no loop is open, or else the innermost one that stays open. -/
inductive Command.Blamed : List Command → Nat → Command → String → Prop where
  | stray {before after : List Command} (balanced : IsBalanced before) :
      Blamed (before ++ .closeLoop :: after) before.length .closeLoop "Unmatched ']'"
  | unclosed {before after : List Command} (balanced : IsBalanced after)
      (closes : ClosesOpened (before ++ .openLoop :: after)) :
      Blamed (before ++ .openLoop :: after) before.length .openLoop "Unmatched '['"

/-! Reports. -/

def Diagnostic.PointsAt (report : Diagnostic) (source : String) (index : Nat)
    (command : Command) : Prop :=
  ∃ before char after, source.toList = before ++ char :: after ∧
    Command.ofChar? char = some command ∧ (before.filterMap Command.ofChar?).length = index ∧
    report.line = 1 + before.count '\n' ∧ report.column = 1 + Text.lastLineLength before

def Diagnostic.Says (report : Diagnostic) (words : String) : Prop :=
  ∃ more, report.message = "ParseError: " ++ words ++ " (line " ++ toString report.line ++
    ", column " ++ toString report.column ++ ")\n" ++ more

theorem Diagnostic.says_summary {report : Diagnostic} (known : report.column ≠ 0) :
    report.Says report.summary := by
  have opening (rest : String) : " (" ++ ("line " ++ rest) = " (line " ++ rest := by
    rw [← String.append_assoc]
    rfl
  refine ⟨report.context ++ (hint? report.summary).elim "" ("\nHint: " ++ ·), ?_⟩
  unfold message place
  rw [if_neg known]
  cases hint? report.summary <;> simp only [String.append_assoc, opening, Option.elim]

theorem Diagnostic.located {source : String} {read rest : List Token} {token : Token}
    (tokens : Token.ofSource source = read ++ token :: rest) (words : String) :
    (locate words source token.line token.column).Says words ∧
      (locate words source token.line token.column).PointsAt source read.length token.command := by
  obtain ⟨before, char, after, split, follows, front, _⟩ := Token.ofSource_split tokens
  constructor
  · apply says_summary
    simp only [locate, follows.column]
    omega
  · refine ⟨before, char, after, split, follows.command, ?_, ?_, ?_⟩
    · rw [front, List.length_map]
    · simp [locate, follows.line]
    · simp [locate, follows.column]

namespace Tree

open Command Reading

def StaysOpen (text : List Char) : Prop :=
  ClosesOpened (text.filterMap ofChar?)

theorem not_staysOpen_of_balanced {text further rest : List Char}
    (balanced : IsBalanced (text.filterMap ofChar?)) (split : text = further ++ '[' :: rest) :
    ¬ StaysOpen rest := by
  have opening : ofChar? '[' = some .openLoop := rfl
  rw [split, List.filterMap_append, List.filterMap_cons_some opening] at balanced
  exact not_closesOpened_of_isBalanced balanced

theorem parse_of_open {source : String} {strict : Bool} {error : ParseError}
    (nested : NestedWithin nestingLimit (ofSource source))
    (closes : ClosesOpened (ofSource source)) (refused : parse strict source = .error error) :
    strict = true ∧ ∃ around bracket inside,
      Token.ofSource source = around ++ bracket :: inside ∧ bracket.command = .openLoop ∧
      IsBalanced (inside.map Token.command) ∧
      error = BuildError.inSource source (some bracket) .unmatchedOpen := by
  obtain ⟨reading, taken⟩ := (takeAll?_isSome_iff_closesOpened source).mpr closes
  have none : Accounts ({} : Reading).opened [] := balanced_assembled.nil
  have accounts := none.takeAll? taken
  rw [parse_of_taken taken nested] at refused
  cases strict with
  | false => simp at refused
  | true =>
      cases opened : reading.opened with
      | nil => simp [opened] at refused
      | cons inner outer =>
          rw [opened] at accounts refused
          obtain ⟨around, inside, tokens, opens, closed, _⟩ := accounts
          refine ⟨rfl, around, inner.bracket, inside, tokens, opens, closed, ?_⟩
          simpa using refused.symm

theorem blamed_of_refused {source : String} {strict : Bool} {error : ParseError}
    (nested : NestedWithin nestingLimit (ofSource source))
    (refused : parse strict source = .error error) :
    ∃ report index bracket words, error = .unmatched report ∧
      Blamed (ofSource source) index bracket words ∧ report.Says words ∧
      report.PointsAt source index bracket := by
  by_cases closes : ClosesOpened (ofSource source)
  · obtain ⟨_, around, token, inside, tokens, opens, closed, rfl⟩ :=
      parse_of_open nested closes refused
    have commands := Token.ofSource_map_command source
    rw [tokens, List.map_append, List.map_cons, opens] at commands
    rw [← commands] at closes
    have blamed := Blamed.unclosed closed closes
    rw [commands, List.length_map] at blamed
    have located := Diagnostic.located tokens "Unmatched '['"
    rw [opens] at located
    exact ⟨_, _, _, _, rfl, blamed, located⟩
  · cases took : takeAll? {} (Token.ofSource source) with
    | some reading =>
        exact absurd ((takeAll?_isSome_iff_closesOpened source).mp ⟨reading, took⟩) closes
    | none =>
        obtain ⟨read, token, rest, tokens, closing, balanced, refusal⟩ := parse_of_stray took nested
        have commands := Token.ofSource_map_command source
        rw [tokens, List.map_append, List.map_cons, closing] at commands
        have blamed : Blamed (read.map Token.command ++ .closeLoop :: rest.map Token.command) _ _ _ :=
          .stray balanced
        rw [commands, List.length_map] at blamed
        rw [refusal strict] at refused
        cases refused
        have located := Diagnostic.located tokens "Unmatched ']'"
        rw [closing] at located
        exact ⟨_, _, _, _, rfl, blamed, located⟩

/-- A parse error names the bracket that it stands for and says where that is. If a closing bracket
comes with no loop open, it is the first one that does, before which all brackets have partners.
Otherwise it is the innermost of those whose loops the text leaves open. -/
theorem parse_error_at_bracket {source : String} (nested : NestedWithin 1000 (ofSource source))
    {strict : Bool} {error : ParseError} (refused : parse strict source = .error error) :
    ∃ report before bracket after,
      error = .unmatched report ∧ source.toList = before ++ bracket :: after ∧
      report.line = 1 + before.count '\n' ∧ report.column = 1 + Text.lastLineLength before ∧
      (¬ ClosesOpened (ofSource source) →
        bracket = ']' ∧ report.Says "Unmatched ']'" ∧ IsBalanced (before.filterMap ofChar?)) ∧
      (ClosesOpened (ofSource source) →
        strict = true ∧ bracket = '[' ∧ report.Says "Unmatched '['" ∧ StaysOpen after ∧
        ∀ further rest, after = further ++ '[' :: rest → ¬ StaysOpen rest) := by
  have shallow : NestedWithin nestingLimit (ofSource source) := nested.mono (by decide)
  by_cases closes : ClosesOpened (ofSource source)
  · obtain ⟨rfl, around, token, inside, tokens, opens, closed, rfl⟩ :=
      parse_of_open shallow closes refused
    obtain ⟨before, bracket, after, split, follows, _, behind⟩ := Token.ofSource_split tokens
    have char := symbol_eq_of_ofChar? follows.command
    rw [opens] at char
    refine ⟨_, before, bracket, after, rfl, split, ?_, ?_, fun stray => absurd closes stray, ?_⟩
    · simp [Diagnostic.locate, follows.line]
    · simp [Diagnostic.locate, follows.column]
    · intro _
      rw [← behind] at closed
      refine ⟨rfl, char.symm, Diagnostic.says_summary ?_, closed.1, ?_⟩
      · simp only [Diagnostic.locate, follows.column]
        omega
      · intro further rest later
        exact not_staysOpen_of_balanced closed later
  · have stopped : takeAll? {} (Token.ofSource source) = none := by
      rw [Option.eq_none_iff_forall_ne_some]
      intro reading taken
      exact closes ((takeAll?_isSome_iff_closesOpened source).mp ⟨reading, taken⟩)
    obtain ⟨read, token, rest, tokens, closing, balanced, refusal⟩ := parse_of_stray stopped shallow
    obtain ⟨before, bracket, after, split, follows, front, _⟩ := Token.ofSource_split tokens
    have char := symbol_eq_of_ofChar? follows.command
    rw [closing] at char
    rw [refusal strict] at refused
    cases refused
    refine ⟨_, before, bracket, after, rfl, split, ?_, ?_, ?_, fun open' => absurd open' closes⟩
    · simp [Diagnostic.locate, follows.line]
    · simp [Diagnostic.locate, follows.column]
    · intro _
      rw [← front] at balanced
      refine ⟨char.symm, Diagnostic.says_summary ?_, balanced⟩
      simp only [Diagnostic.locate, follows.column]
      omega

theorem parse_error_second_line :
    ∃ report before bracket after,
      parse true "+[>[-]\n [." = .error (.unmatched report) ∧ report.line = 2 ∧ report.column = 2 ∧
      "+[>[-]\n [.".toList = before ++ bracket :: after ∧ bracket = '[' ∧
      before.count '\n' = 1 ∧ Text.lastLineLength before = 1 ∧ StaysOpen after := by
  have commands : ofSource "+[>[-]\n [." =
      [.increment, .openLoop, .right, .openLoop, .decrement, .closeLoop, .openLoop, .print] := by
    decide
  have nested : NestedWithin 1000 (ofSource "+[>[-]\n [.") := by
    rw [commands, NestedWithin]
    simp [forall_start_cons, depth]
  have closes : ClosesOpened (ofSource "+[>[-]\n [.") := by
    rw [commands, ClosesOpened]
    simp [forall_start_cons, depth]
  have refused : parse true "+[>[-]\n [." = .error _ := rfl
  obtain ⟨report, before, bracket, after, same, split, line, column, _, left⟩ :=
    parse_error_at_bracket nested refused
  obtain ⟨_, char, _, stays, _⟩ := left closes
  have lineIs : report.line = 2 := by
    cases same
    rfl
  have columnIs : report.column = 2 := by
    cases same
    rfl
  rw [same] at refused
  exact ⟨report, before, bracket, after, refused, lineIs, columnIs, split, char, by omega, by omega,
    stays⟩

end Tree

end TapeTree
