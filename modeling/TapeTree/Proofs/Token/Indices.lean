import TapeTree.Proofs.Diagnostic.Carets

/-! Tokens and the indices of their characters. Every character that writes a command has one token,
and its place says where among the lines of the text that character is. Of all other characters
only line feeds begin a line, and each of the rest takes up one column. -/

namespace TapeTree

namespace Text

def lastLineFeed (text : List Char) : Int :=
  match (text.idxsOf '\n').getLast? with
  | some index => index
  | none => -1

theorem lastLineFeed_concat (text : List Char) (char : Char) :
    lastLineFeed (text ++ [char]) =
      if char = '\n' then (text.length : Int) else lastLineFeed text := by
  rw [lastLineFeed, List.idxsOf_append]
  by_cases newline : char = '\n'
  · simp [newline]
  · simp [newline, lastLineFeed]

theorem length_eq_lastLineFeed_add (text : List Char) :
    (text.length : Int) = lastLineFeed text + 1 + lastLineLength text := by
  induction text using List.reverseRecOn with
  | nil => rfl
  | append_singleton text char ih =>
      rw [lastLineFeed_concat, lastLineLength_concat, List.length_append, List.length_singleton]
      split
      · simp
      · omega

theorem exists_line_at (before after : List Char) {char : Char} (inLine : char ≠ '\n') :
    ∃ row, (lines (before ++ char :: after))[before.count '\n']? = some row ∧
      row[lastLineLength before]? = some char := by
  obtain ⟨front, start, count, length, whole⟩ := exists_lines_append before
  obtain ⟨finish, back, behind⟩ := List.exists_cons_of_ne_nil (lines_ne_nil after)
  rw [whole, lines_cons, if_neg inLine, behind, ← count, ← length]
  exact ⟨start ++ char :: finish, by simp, by simp⟩

end Text

open Text

namespace Token

theorem scanBehind_append (earlier text rest : List Char) :
    scanBehind earlier (text ++ rest) =
      scanBehind earlier text ++ scanBehind (earlier ++ text) rest := by
  induction text generalizing earlier with
  | nil => simp [scanBehind, scan]
  | cons char text ih =>
      rw [List.cons_append, scanBehind_cons, ih, scanBehind_cons, List.append_assoc,
        List.append_assoc, List.singleton_append]

/-! Indices. -/

structure Locates (text : List Char) (token : Token) (index : Nat) : Prop where
  command : text[index]?.bind Command.ofChar? = some token.command
  line : token.line = 1 + (text.take index).count '\n'
  column : (token.column : Int) = index - lastLineFeed (text.take index)
  column_pos : 1 ≤ token.column
  shown : ∃ row, (lines text)[token.line - 1]? = some row ∧
    row[token.column - 1]? = some token.command.symbol

theorem locates_behind (earlier rest : List Char) {char : Char} {command : Command}
    (found : Command.ofChar? char = some command) :
    (behind earlier command).Locates (earlier ++ char :: rest) earlier.length := by
  have symbol : command.symbol = char := Command.symbol_eq_of_ofChar? found
  have inLine : char ≠ '\n' := by
    rintro rfl
    cases found
  have length := length_eq_lastLineFeed_add earlier
  obtain ⟨row, inText, inRow⟩ := exists_line_at earlier rest inLine
  refine ⟨by simpa [behind] using found, by simp [behind], ?_, by simp [behind], row, ?_, ?_⟩
  · rw [List.take_left, length, behind]
    push_cast
    omega
  · simpa [behind] using inText
  · simpa [behind, symbol] using inRow

def indices (text : List Char) (start : Nat) : List Nat :=
  text.findIdxs (fun char => (Command.ofChar? char).isSome) start

theorem scanBehind_located (earlier text : List Char) :
    List.Forall₂ (Locates (earlier ++ text)) (scanBehind earlier text)
      (indices text earlier.length) := by
  induction text generalizing earlier with
  | nil => exact .nil
  | cons char rest ih =>
      have later := ih (earlier ++ [char])
      rw [List.append_assoc, List.singleton_append, List.length_append,
        List.length_singleton] at later
      rw [scanBehind_cons, indices, List.findIdxs_cons]
      cases found : Command.ofChar? char with
      | none => exact later
      | some command => exact .cons (locates_behind earlier rest found) later

/-! Comments. -/

def movedOn (line : Nat) (token : Token) : Token :=
  if token.line = line then { token with column := token.column + 1 } else token

theorem line_le_of_mem_scan {line column : Nat} {text : List Char} {token : Token}
    (member : token ∈ scan line column text) : line ≤ token.line := by
  induction text generalizing line column with
  | nil => cases member
  | cons char rest ih =>
      rw [scan] at member
      split at member
      · exact Nat.le_of_succ_le (ih member)
      · split at member
        · rcases List.mem_cons.mp member with rfl | later
          · exact Nat.le_refl line
          · exact ih later
        · exact ih member

theorem movedOn_of_mem_scan {line column : Nat} {text : List Char} {token : Token}
    (member : token ∈ scan (line + 1) column text) : token.movedOn line = token := by
  have below := line_le_of_mem_scan member
  rw [movedOn, if_neg (by omega)]

theorem scan_movedOn (line column : Nat) (text : List Char) :
    scan line (column + 1) text = (scan line column text).map (movedOn line) := by
  induction text generalizing column with
  | nil => rfl
  | cons char rest ih =>
      rw [scan, scan]
      split
      · -- what comes after a line feed is on other lines
        have stays : ∀ token ∈ scan (line + 1) 0 rest, token.movedOn line = token :=
          fun _ member => movedOn_of_mem_scan member
        rw [List.map_congr_left stays, List.map_id']
      · cases Command.ofChar? char with
        | none => exact ih (column + 1)
        | some command =>
            rw [List.map_cons, ← ih (column + 1)]
            simp [movedOn]

theorem scanBehind_comment {earlier : List Char} {comment : Char} (inLine : comment ≠ '\n')
    (noCommand : Command.ofChar? comment = none) (rest : List Char) :
    scanBehind earlier (comment :: rest) =
      (scanBehind earlier rest).map (movedOn (1 + earlier.count '\n')) := by
  rw [scanBehind_cons, noCommand, scanBehind, lastLineLength_concat, if_neg inLine, scanBehind,
    scan_movedOn, List.count_append, List.count_singleton]
  simp [inLine]

/-- Every command of a source text has one token, in the order of the text, which tells where it
stands: the line by the line feeds before it, the column by its distance to the last of them. That
is its place among the lines that the text splits into. A character that is neither a line feed nor
a command only moves the tokens after it on its line one column on. -/
theorem ofSource_locates_commands (source : String) :
    (ofSource source).map command = Command.ofSource source ∧
    List.Forall₂ (Locates source.toList) (ofSource source) (indices source.toList 0) ∧
    ∀ before comment after, source.toList = before ++ comment :: after → comment ≠ '\n' →
      Command.ofChar? comment = none →
      ∃ rest, ofSource (String.ofList (before ++ after)) =
          ofSource (String.ofList before) ++ rest ∧
        ofSource source =
          ofSource (String.ofList before) ++ rest.map (movedOn (1 + before.count '\n')) := by
  refine ⟨ofSource_map_command source, scanBehind_located [] source.toList, ?_⟩
  intro before comment after split inLine noCommand
  refine ⟨scanBehind before after, ?_, ?_⟩
  · simp only [ofSource_eq_scanBehind, String.toList_ofList]
    exact scanBehind_append [] before after
  · simp only [ofSource_eq_scanBehind, String.toList_ofList]
    rw [split, scanBehind_append, List.nil_append, scanBehind_comment inLine noCommand]

/-- A carriage return and a line separator are comments like any other. -/
theorem tokens_around_return :
    "+\r.\n\u2028,".toList = ['+'] ++ '\r' :: ['.', '\n', '\u2028', ','] ∧
    ofSource "+\r.\n\u2028," = [⟨.increment, 1, 1⟩, ⟨.print, 1, 3⟩, ⟨.read, 2, 2⟩] ∧
    List.Forall₂ (Locates "+\r.\n\u2028,".toList) (ofSource "+\r.\n\u2028,") [0, 2, 5] ∧
    ∃ rest, ofSource "+.\n\u2028," = ofSource "+" ++ rest ∧
      ofSource "+\r.\n\u2028," = ofSource "+" ++ rest.map (movedOn 1) := by
  have split : "+\r.\n\u2028,".toList = ['+'] ++ '\r' :: ['.', '\n', '\u2028', ','] := by decide
  obtain ⟨_, located, moved⟩ := ofSource_locates_commands "+\r.\n\u2028,"
  have places : indices "+\r.\n\u2028,".toList 0 = [0, 2, 5] := by
    rw [split]
    rfl
  rw [places] at located
  exact ⟨split, by decide, located, moved ['+'] '\r' _ split (by decide) rfl⟩

end Token

end TapeTree
