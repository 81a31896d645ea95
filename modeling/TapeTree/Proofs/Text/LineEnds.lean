import TapeTree.Program

/-! Programs in files, under every convention for line ends. What a file says is the text that was
written to it, so its program is that of the text. -/

namespace TapeTree

/-- A convention for the end of a line. -/
inductive LineEnd where
  | lineFeed
  | carriageReturn
  | both

namespace LineEnd

def chars : LineEnd → List Char
  | lineFeed => ['\n']
  | carriageReturn => ['\r']
  | both => ['\r', '\n']

def write (ending : LineEnd) (text : List Char) : List Char :=
  text.flatMap fun char => if char = '\n' then ending.chars else [char]

def encode (ending : LineEnd) (text : String) : ByteArray :=
  (String.ofList (ending.write text.toList)).toUTF8

theorem write_cons (ending : LineEnd) (char : Char) (rest : List Char) :
    ending.write (char :: rest) =
      (if char = '\n' then ending.chars else [char]) ++ ending.write rest := rfl

theorem write_lineFeed (text : List Char) : lineFeed.write text = text := by
  induction text with
  | nil => rfl
  | cons char rest ih =>
      rw [write_cons, ih]
      split
      · rename_i newline
        rw [newline]
        rfl
      · rfl

theorem not_mem_write_carriageReturn (text : List Char) :
    '\n' ∉ carriageReturn.write text := by
  intro member
  obtain ⟨char, _, inside⟩ := List.mem_flatMap.mp member
  split at inside
  · simp [chars] at inside
  · rename_i other
    exact other (List.mem_singleton.mp inside).symm

end LineEnd

namespace Text

theorem unifyLineEnds_cons {char : Char} (other : char ≠ '\r') (rest : List Char) :
    unifyLineEnds (char :: rest) = char :: unifyLineEnds rest := by
  rw [unifyLineEnds]
  · rintro _ rfl
    exact fun _ => other rfl
  · rintro rfl
    exact other rfl

theorem unifyLineEnds_return {rest : List Char} (single : '\n' ∉ rest) :
    unifyLineEnds ('\r' :: rest) = '\n' :: unifyLineEnds rest := by
  rw [unifyLineEnds]
  rintro further rfl
  exact single List.mem_cons_self

theorem unifyLineEnds_write (ending : LineEnd) {text : List Char} (clean : '\r' ∉ text) :
    unifyLineEnds (ending.write text) = text := by
  induction text with
  | nil => rfl
  | cons char rest ih =>
      obtain ⟨other, clean⟩ : '\r' ≠ char ∧ '\r' ∉ rest := by simpa using clean
      have later := ih clean
      rw [LineEnd.write_cons]
      split
      · rename_i newline
        rw [newline]
        cases ending with
        | lineFeed => exact (unifyLineEnds_cons (by decide) _).trans (congrArg _ later)
        | carriageReturn =>
            have single := LineEnd.not_mem_write_carriageReturn rest
            exact (unifyLineEnds_return single).trans (congrArg _ later)
        | both =>
            change '\n' :: unifyLineEnds (LineEnd.both.write rest) = _
            rw [later]
      · exact (unifyLineEnds_cons other.symm _).trans (congrArg _ later)

end Text

theorem Encoding.decode?_toUTF8 (text : String) : utf8.decode? text.toUTF8 = some text := by
  rw [decode?, String.fromUTF8?, String.toUTF8_eq_toByteArray, dif_pos text.isValidUTF8]
  rfl

theorem Encoding.readText?_encode (ending : LineEnd) {text : String} (clean : '\r' ∉ text.toList) :
    utf8.readText? (ending.encode text) = some text := by
  rw [readText?, LineEnd.encode, decode?_toUTF8, Option.map_some, String.toList_ofList,
    Text.unifyLineEnds_write ending clean, String.ofList_toList]

/-- A text without carriage returns gives the same program, or the same error, as a file that it
is written to, whatever the file has at the ends of its lines. -/
theorem file_gives_program_of_text (options : ProgramOptions) {source : String}
    (clean : '\r' ∉ source.toList) :
    Program.ofFile options .utf8 (.ok source.toUTF8) =
        (Program.ofSource options source).mapError .parse ∧
      ∀ ending : LineEnd, Program.ofFile options .utf8 (.ok (ending.encode source)) =
        (Program.ofSource options source).mapError .parse := by
  have every (ending : LineEnd) : Program.ofFile options .utf8 (.ok (ending.encode source)) =
      (Program.ofSource options source).mapError .parse := by
    rw [Program.ofFile, Encoding.readText?_encode ending clean]
  refine ⟨?_, every⟩
  have plain : LineEnd.lineFeed.encode source = source.toUTF8 := by
    rw [LineEnd.encode, LineEnd.write_lineFeed, String.ofList_toList]
  rw [← plain]
  exact every .lineFeed

/-- The line of the stray bracket is the fourth under every convention, and its column the second,
though the character before it takes two bytes. -/
theorem stray_bracket_in_file :
    '\r' ∉ "ä[\n\n-]\nö]".toList ∧
      ∃ report, Program.ofSource {} "ä[\n\n-]\nö]" = .error (.unmatched report) ∧
        (report.line, report.column) = (4, 2) ∧
        Program.ofFile {} .utf8 (.ok "ä[\n\n-]\nö]".toUTF8) =
          .error (.parse (.unmatched report)) ∧
        ∀ ending : LineEnd, Program.ofFile {} .utf8 (.ok (ending.encode "ä[\n\n-]\nö]")) =
          .error (.parse (.unmatched report)) := by
  have clean : '\r' ∉ "ä[\n\n-]\nö]".toList := by decide
  have refused : Program.ofSource {} "ä[\n\n-]\nö]" = .error (.unmatched _) := rfl
  have same := file_gives_program_of_text {} clean
  rw [refused] at same
  exact ⟨clean, _, refused, rfl, same⟩

end TapeTree
