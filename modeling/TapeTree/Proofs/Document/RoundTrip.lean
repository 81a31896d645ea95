import TapeTree.Document.Reader
import TapeTree.Proofs.Text.Reading
import TapeTree.Tree.Document

/-! The text of a tree is read back as the tree in every layout, and layouts differ in blanks and
line feeds only. The reader is followed along the writer, with the text that goes on behind. -/

namespace TapeTree

namespace Document

open Text

/-! Blanks and line feeds. -/

theorem skipBlanks_skipBlanks (text : List Char) :
    skipBlanks (skipBlanks text) = skipBlanks text := by
  induction text with
  | nil => rfl
  | cons char rest ih =>
      by_cases blank : char = ' ' ∨ char = '\n'
      · simpa [skipBlanks, blank] using ih
      · simp [skipBlanks, blank]

theorem skipBlanks_cons {char : Char} (blank : char = ' ' ∨ char = '\n') (rest : List Char) :
    skipBlanks (char :: rest) = skipBlanks rest := by
  simp [skipBlanks, blank]

theorem skipBlanks_sign {char : Char} (sign : ¬ (char = ' ' ∨ char = '\n')) (rest : List Char) :
    skipBlanks (char :: rest) = char :: rest := by
  simp [skipBlanks, sign]

theorem skipBlanks_replicate (count : Nat) (rest : List Char) :
    skipBlanks (List.replicate count ' ' ++ rest) = skipBlanks rest := by
  induction count with
  | zero => rfl
  | succ count ih =>
      rw [List.replicate_succ, List.cons_append, skipBlanks_cons (Or.inl rfl), ih]

theorem skipBlanks_lineBreak (layout : Layout) (depth : Nat) (rest : List Char) :
    skipBlanks (layout.lineBreak depth rest) = skipBlanks rest := by
  cases layout with
  | line => rfl
  | indented blanks =>
      rw [Layout.lineBreak, skipBlanks_cons (Or.inr rfl), skipBlanks_replicate]

theorem skipBlanks_between (layout : Layout) (depth : Nat) (rest : List Char) :
    skipBlanks (layout.between depth rest) = skipBlanks rest := by
  cases layout with
  | line => exact skipBlanks_cons (Or.inl rfl) rest
  | indented blanks => exact skipBlanks_lineBreak (.indented blanks) depth rest

theorem afterSign?_eq {sign char : Char} {text rest : List Char}
    (ahead : skipBlanks text = char :: rest) :
    afterSign? sign text = if char = sign then some (skipBlanks rest) else none := by
  rw [afterSign?, ahead]

def EndsNumber (text : List Char) : Prop :=
  text.takeWhile Char.isDigit = []

theorem endsNumber_cons {char : Char} (other : char.isDigit = false) (rest : List Char) :
    EndsNumber (char :: rest) := by
  simp [EndsNumber, other]

theorem endsNumber_lineBreak (layout : Layout) (depth : Nat) {rest : List Char}
    (ends : EndsNumber rest) : EndsNumber (layout.lineBreak depth rest) := by
  cases layout with
  | line => exact ends
  | indented blanks => exact endsNumber_cons rfl _

theorem length_lineBreak (layout : Layout) (depth : Nat) (rest : List Char) :
    rest.length ≤ (layout.lineBreak depth rest).length := by
  cases layout with
  | line => exact Nat.le_refl _
  | indented blanks =>
      rw [Layout.lineBreak, List.length_cons, List.length_append]
      omega

theorem length_between (layout : Layout) (depth : Nat) (rest : List Char) :
    rest.length ≤ (layout.between depth rest).length := by
  cases layout with
  | line => exact Nat.le_succ _
  | indented blanks => exact length_lineBreak (.indented blanks) depth rest

/-! Tags and numbers. -/

theorem readTag?_quoted (tag : Tag) (rest : List Char) :
    readTag? (quoted tag rest) = some (tag, rest) := by
  have unquoted : '\x22' ∉ tag.name.toList := by cases tag <;> decide
  have noQuote : ∀ char ∈ tag.name.toList, decide (char ≠ '\x22') = true := by
    intro char member
    rw [decide_eq_true_eq]
    rintro rfl
    exact unquoted member
  have known : (tags.find? fun other => other.name.toList = tag.name.toList) = some tag := by
    cases tag <;> decide
  have name : (tag.name.toList ++ '\x22' :: rest).takeWhile (· ≠ '\x22') = tag.name.toList := by
    rw [List.takeWhile_append_of_pos noQuote]
    simp
  have behind : (tag.name.toList ++ '\x22' :: rest).dropWhile (· ≠ '\x22') = '\x22' :: rest := by
    rw [List.dropWhile_append_of_pos noQuote]
    simp
  rw [quoted, readTag?, behind]
  simp only [name, known, Option.map_some]

theorem readDigits_toDigits (number : Nat) {rest : List Char} (ends : EndsNumber rest) :
    readDigits (Nat.toDigits 10 number ++ rest) = some (number, rest) := by
  have digits : ∀ char ∈ Nat.toDigits 10 number, char.isDigit = true :=
    fun _ => isDigit_of_mem_decimal
  have front : (Nat.toDigits 10 number ++ rest).takeWhile Char.isDigit = Nat.toDigits 10 number := by
    rw [List.takeWhile_append_of_pos digits, ends, List.append_nil]
  have back : (Nat.toDigits 10 number ++ rest).dropWhile Char.isDigit = rest := by
    have whole := List.takeWhile_append_dropWhile (p := Char.isDigit) (l := rest)
    rw [ends, List.nil_append] at whole
    rw [List.dropWhile_append_of_pos digits, whole]
  rw [readDigits, front, back]
  split
  · rename_i none
    exact absurd none Nat.toDigits_ne_nil
  · rw [← Nat.ofDigitChars_eq_foldl, Nat.ofDigitChars_ten_toDigits]

theorem exists_digit (number : Nat) :
    ∃ char more, Nat.toDigits 10 number = char :: more ∧ char.isDigit := by
  obtain ⟨char, more, digits⟩ := List.exists_cons_of_ne_nil (@Nat.toDigits_ne_nil number 10)
  have first : char ∈ Nat.toDigits 10 number := by
    rw [digits]
    exact List.mem_cons_self
  exact ⟨char, more, digits, isDigit_of_mem_decimal first⟩

theorem exists_numeric (value : Int) :
    ∃ char more, (toString value).toList = char :: more ∧ IsNumeric char := by
  cases value with
  | ofNat size =>
      obtain ⟨char, more, digits, digit⟩ := exists_digit size
      exact ⟨char, more, (toList_toString_ofNat size).trans digits, Or.inl digit⟩
  | negSucc size => exact ⟨'-', _, toList_toString_negSucc size, Or.inr rfl⟩

theorem readNumber?_toString (value : Int) {rest : List Char} (ends : EndsNumber rest) :
    readNumber? ((toString value).toList ++ rest) = some (value, rest) := by
  cases value with
  | ofNat size =>
      rw [toList_toString_ofNat, readNumber?]
      · rw [readDigits_toDigits size ends]
        rfl
      · intro more minus
        obtain ⟨char, others, digits, digit⟩ := exists_digit size
        rw [digits] at minus
        rw [(List.cons.inj minus).1] at digit
        cases digit
  | negSucc size =>
      rw [toList_toString_negSucc, List.cons_append, readNumber?, readDigits_toDigits _ ends]
      rfl

/-! What the reader does at each kind of document. -/

theorem readDocument?_number {fuel : Nat} {text rest : List Char} {char : Char} {value : Int}
    (begins : text.head? = some char) (numeric : IsNumeric char)
    (number : readNumber? text = some (value, rest)) :
    readDocument? (fuel + 1) text = some (.number value, rest) := by
  have others : char ≠ '[' ∧ char ≠ '\x7b' ∧ char ≠ '\x22' := by
    refine ⟨?_, ?_, ?_⟩ <;>
    · rintro rfl
      simp [IsNumeric, Char.isDigit] at numeric
  have apart {sign : Char} {more : List Char} (same : text = sign :: more) : char = sign := by
    rw [same] at begins
    cases begins
    rfl
  rw [readDocument?.eq_def]
  simp only
  split
  · exact absurd (apart rfl) others.1
  · exact absurd (apart rfl) others.2.1
  · exact absurd (apart rfl) others.2.2
  · rw [number]
    rfl

theorem readDocument?_word (fuel : Nat) (tag : Tag) (rest : List Char) :
    readDocument? (fuel + 1) (quoted tag rest) = some (.word tag, rest) := by
  rw [quoted, readDocument?, ← quoted, readTag?_quoted]
  rfl

theorem readDocument?_empty {fuel : Nat} {text rest : List Char}
    (closing : skipBlanks text = ']' :: rest) :
    readDocument? (fuel + 1) ('[' :: text) = some (.list [], skipBlanks rest) := by
  rw [readDocument?, afterSign?_eq closing, if_pos rfl]

theorem readDocument?_list {fuel : Nat} {text more after : List Char} {char : Char}
    {items : List Document} (begins : skipBlanks text = char :: more) (other : char ≠ ']')
    (read : readItems? fuel (char :: more) = some (items, after)) :
    readDocument? (fuel + 1) ('[' :: text) = some (.list items, after) := by
  rw [readDocument?, afterSign?_eq begins, if_neg other, begins, read]
  rfl

theorem readDocument?_entry {fuel : Nat} {text inner after rest : List Char} {tag : Tag}
    {value : Document} (begins : skipBlanks text = quoted tag (':' :: inner))
    (read : readDocument? fuel (skipBlanks inner) = some (value, after))
    (closing : skipBlanks after = '\x7d' :: rest) :
    readDocument? (fuel + 1) ('\x7b' :: text) = some (.entry tag value, skipBlanks rest) := by
  have colon : skipBlanks (':' :: inner) = ':' :: inner := skipBlanks_sign (by decide) inner
  rw [readDocument?, begins, readTag?_quoted]
  simp only [afterSign?_eq colon, if_true, read, afterSign?_eq closing, Option.map_some]

theorem readItems?_last {fuel : Nat} {text after rest : List Char} {item : Document}
    (read : readDocument? fuel text = some (item, after))
    (closing : skipBlanks after = ']' :: rest) :
    readItems? (fuel + 1) text = some ([item], skipBlanks rest) := by
  have noComma : ']' ≠ ',' := by decide
  rw [readItems?, read]
  simp only [afterSign?_eq closing, if_neg noComma, if_true, Option.map_some]

theorem readItems?_more {fuel : Nat} {text after behind last : List Char} {item : Document}
    {items : List Document} (read : readDocument? fuel text = some (item, after))
    (comma : skipBlanks after = ',' :: behind)
    (readOn : readItems? fuel (skipBlanks behind) = some (items, last)) :
    readItems? (fuel + 1) text = some (item :: items, last) := by
  rw [readItems?, read]
  simp only [afterSign?_eq comma, if_true, readOn, Option.map_some]

/-! What is written. -/

structure IsOpening (char : Char) : Prop where
  solid : ¬ (char = ' ' ∨ char = '\n')
  other : char ≠ ']'

theorem isOpening_of_isNumeric {char : Char} (numeric : IsNumeric char) : IsOpening char := by
  constructor
  · rintro (rfl | rfl) <;> simp [IsNumeric, Char.isDigit] at numeric
  · rintro rfl
    simp [IsNumeric, Char.isDigit] at numeric

theorem exists_opening (layout : Layout) (depth : Nat) (document : Document) (rest : List Char) :
    ∃ char more, write layout depth document rest = char :: more ∧ IsOpening char := by
  cases document with
  | number value =>
      obtain ⟨char, more, written, numeric⟩ := exists_numeric value
      refine ⟨char, more ++ rest, ?_, isOpening_of_isNumeric numeric⟩
      rw [write, written, List.cons_append]
  | word tag => exact ⟨'\x22', _, by rw [write, quoted], by decide, by decide⟩
  | list items =>
      cases items with
      | nil => exact ⟨'[', _, by rw [write], by decide, by decide⟩
      | cons first others => exact ⟨'[', _, by rw [write], by decide, by decide⟩
  | entry tag value => exact ⟨'\x7b', _, by rw [write], by decide, by decide⟩

theorem skipBlanks_write (layout : Layout) (depth : Nat) (document : Document)
    (rest : List Char) :
    skipBlanks (write layout depth document rest) = write layout depth document rest := by
  obtain ⟨char, more, written, opening⟩ := exists_opening layout depth document rest
  rw [written, skipBlanks_sign opening.solid]

theorem endsNumber_writeOthers (layout : Layout) (depth : Nat) (others : List Document)
    (rest : List Char) : EndsNumber (writeOthers layout depth others rest) := by
  cases others with
  | nil =>
      rw [writeOthers]
      exact endsNumber_lineBreak layout depth (endsNumber_cons rfl rest)
  | cons item others =>
      rw [writeOthers]
      exact endsNumber_cons rfl _

mutual

theorem length_write (layout : Layout) (depth : Nat) (document : Document) (rest : List Char) :
    rest.length < (write layout depth document rest).length := by
  match document with
  | .number value =>
      obtain ⟨char, more, written, _⟩ := exists_numeric value
      rw [write, written, List.length_append, List.length_cons]
      omega
  | .word tag =>
      rw [write, quoted, List.length_cons, List.length_append, List.length_cons]
      omega
  | .list [] =>
      rw [write, List.length_cons, List.length_cons]
      omega
  | .list (first :: others) =>
      have item := length_write layout (depth + 1) first (writeOthers layout depth others rest)
      have behind := length_writeOthers layout depth others rest
      have broken := length_lineBreak layout (depth + 1)
        (write layout (depth + 1) first (writeOthers layout depth others rest))
      rw [write, List.length_cons]
      omega
  | .entry tag value =>
      have inside := length_write layout (depth + 1) value (layout.lineBreak depth ('\x7d' :: rest))
      have closed := length_lineBreak layout depth ('\x7d' :: rest)
      have broken := length_lineBreak layout (depth + 1) (quoted tag (':' :: ' ' ::
        write layout (depth + 1) value (layout.lineBreak depth ('\x7d' :: rest))))
      rw [quoted, List.length_cons, List.length_append] at broken
      simp only [List.length_cons] at closed broken
      rw [write, List.length_cons, quoted]
      omega

theorem length_writeOthers (layout : Layout) (depth : Nat) (others : List Document)
    (rest : List Char) : rest.length < (writeOthers layout depth others rest).length := by
  match others with
  | [] =>
      have broken := length_lineBreak layout depth (']' :: rest)
      rw [List.length_cons] at broken
      rw [writeOthers]
      omega
  | item :: others =>
      have here := length_write layout (depth + 1) item (writeOthers layout depth others rest)
      have behind := length_writeOthers layout depth others rest
      have parted := length_between layout (depth + 1)
        (write layout (depth + 1) item (writeOthers layout depth others rest))
      rw [writeOthers, List.length_cons]
      omega

end

/-- The reader finds this at the start of a text, with this text behind it, up to blanks. -/
def Finds {Found : Type} (read : Option (Found × List Char)) (found : Found)
    (rest : List Char) : Prop :=
  ∃ after, read = some (found, after) ∧ skipBlanks after = skipBlanks rest

theorem finds_skipped {Found : Type} {read : Option (Found × List Char)} {found : Found}
    {rest : List Char} (same : read = some (found, skipBlanks rest)) : Finds read found rest :=
  ⟨skipBlanks rest, same, skipBlanks_skipBlanks rest⟩

mutual

/-- What is written is read back. Each level takes less fuel than the characters it has. -/
theorem finds_document (layout : Layout) (depth : Nat) (document : Document) (fuel : Nat)
    (rest : List Char) (ends : EndsNumber rest)
    (enough : (write layout depth document rest).length ≤ fuel + rest.length) :
    Finds (readDocument? fuel (write layout depth document rest)) document rest := by
  have length := length_write layout depth document rest
  obtain ⟨fuel, rfl⟩ : ∃ left, fuel = left + 1 := ⟨fuel - 1, by omega⟩
  match document with
  | .number value =>
      obtain ⟨char, more, written, numeric⟩ := exists_numeric value
      have begins : ((toString value).toList ++ rest).head? = some char := by
        rw [written]
        rfl
      rw [write]
      exact ⟨rest, readDocument?_number begins numeric (readNumber?_toString value ends), rfl⟩
  | .word tag =>
      rw [write]
      exact ⟨rest, readDocument?_word fuel tag rest, rfl⟩
  | .list [] =>
      rw [write]
      exact finds_skipped (readDocument?_empty (skipBlanks_sign (by decide) rest))
  | .list (first :: others) =>
      have broken := length_lineBreak layout (depth + 1)
        (write layout (depth + 1) first (writeOthers layout depth others rest))
      rw [write, List.length_cons] at enough
      obtain ⟨after, read, same⟩ :=
        finds_items layout depth (first :: others) rfl fuel rest (by omega)
      obtain ⟨char, more, written, opening⟩ := exists_opening layout (depth + 1) first
        (writeOthers layout depth others rest)
      rw [written] at read
      rw [write]
      refine ⟨after, readDocument?_list ?_ opening.other read, same⟩
      rw [skipBlanks_lineBreak, skipBlanks_write, written]
  | .entry tag value =>
      -- the value, and the text from it on
      let closing := layout.lineBreak depth ('\x7d' :: rest)
      let inner := write layout (depth + 1) value closing
      have whole : write layout depth (.entry tag value) rest =
          '\x7b' :: layout.lineBreak (depth + 1) (quoted tag (':' :: ' ' :: inner)) := by
        rw [write]
      have broken := length_lineBreak layout (depth + 1) (quoted tag (':' :: ' ' :: inner))
      have tagged : inner.length < (quoted tag (':' :: ' ' :: inner)).length := by
        rw [quoted, List.length_cons, List.length_append]
        simp only [List.length_cons]
        omega
      have closed : rest.length < closing.length :=
        length_lineBreak layout depth ('\x7d' :: rest)
      have inside : inner.length ≤ fuel + closing.length := by
        rw [whole, List.length_cons] at enough
        omega
      have ended : EndsNumber closing :=
        endsNumber_lineBreak layout depth (endsNumber_cons rfl rest)
      obtain ⟨after, read, same⟩ := finds_document layout (depth + 1) value fuel closing ended inside
      have begins : skipBlanks (layout.lineBreak (depth + 1) (quoted tag (':' :: ' ' :: inner))) =
          quoted tag (':' :: ' ' :: inner) := by
        rw [skipBlanks_lineBreak, quoted, skipBlanks_sign (by decide)]
      have valueRead : readDocument? fuel (skipBlanks (' ' :: inner)) = some (value, after) := by
        rw [skipBlanks_cons (Or.inl rfl), skipBlanks_write]
        exact read
      have brace : skipBlanks after = '\x7d' :: rest := by
        rw [same, skipBlanks_lineBreak, skipBlanks_sign (by decide)]
      rw [whole]
      exact finds_skipped (readDocument?_entry begins valueRead brace)

theorem finds_items (layout : Layout) (depth : Nat) (items : List Document) {first : Document}
    {others : List Document} (split : items = first :: others) (fuel : Nat) (rest : List Char)
    (enough : (write layout (depth + 1) first (writeOthers layout depth others rest)).length ≤
      fuel + rest.length) :
    Finds
      (readItems? fuel (write layout (depth + 1) first (writeOthers layout depth others rest)))
      items rest := by
  match items, split with
  | _ :: _, rfl =>
  have length := length_write layout (depth + 1) first (writeOthers layout depth others rest)
  have behind := length_writeOthers layout depth others rest
  obtain ⟨fuel, rfl⟩ : ∃ left, fuel = left + 1 := ⟨fuel - 1, by omega⟩
  obtain ⟨after, read, same⟩ := finds_document layout (depth + 1) first fuel
    (writeOthers layout depth others rest) (endsNumber_writeOthers layout depth others rest)
    (by omega)
  match others with
  | [] =>
      refine finds_skipped (readItems?_last read ?_)
      rw [same, writeOthers, skipBlanks_lineBreak, skipBlanks_sign (by decide)]
  | second :: more =>
      have parted := length_between layout (depth + 1)
        (write layout (depth + 1) second (writeOthers layout depth more rest))
      have longer : (writeOthers layout depth (second :: more) rest).length =
          (layout.between (depth + 1)
            (write layout (depth + 1) second (writeOthers layout depth more rest))).length + 1 := by
        rw [writeOthers, List.length_cons]
      obtain ⟨last, readOn, sameLast⟩ :=
        finds_items layout depth (second :: more) rfl fuel rest (by omega)
      rw [← skipBlanks_write, ← skipBlanks_between layout (depth + 1)] at readOn
      refine ⟨last, readItems?_more read ?_ readOn, sameLast⟩
      rw [same, writeOthers, skipBlanks_sign (by decide)]

end

theorem ofText?_text (layout : Layout) (document : Document) :
    ofText? (document.text layout) = some document := by
  have chars : (document.text layout).toList = write layout 0 document [] := String.toList_ofList
  have enough : (write layout 0 document []).length ≤ (document.text layout).length + 1 + 0 := by
    rw [← String.length_toList, chars]
    omega
  obtain ⟨after, read, blank⟩ := finds_document layout 0 document _ [] rfl enough
  rw [ofText?, chars, skipBlanks_write, read]
  cases after with
  | nil => rfl
  | cons char more => exact if_pos blank

/-! Without blanks and line feeds all layouts are the same. -/

def compact (text : List Char) : List Char :=
  text.filter fun char => char ≠ ' ' && char ≠ '\n'

theorem compact_cons_congr {text other : List Char} (char : Char)
    (same : compact text = compact other) : compact (char :: text) = compact (char :: other) := by
  rw [compact, compact, List.filter_cons, List.filter_cons]
  rw [compact, compact] at same
  rw [same]

theorem compact_append_congr {text other : List Char} (front : List Char)
    (same : compact text = compact other) : compact (front ++ text) = compact (front ++ other) := by
  rw [compact, compact, List.filter_append, List.filter_append]
  rw [compact, compact] at same
  rw [same]

theorem compact_lineBreak (layout : Layout) (depth : Nat) (rest : List Char) :
    compact (layout.lineBreak depth rest) = compact rest := by
  cases layout with
  | line => rfl
  | indented blanks =>
      have none : compact (List.replicate (blanks.toNat * depth) ' ') = [] := by
        simp [compact]
      rw [compact] at none
      rw [Layout.lineBreak, compact, List.filter_cons_of_neg (by simp), List.filter_append, none]
      rfl

theorem compact_between (layout : Layout) (depth : Nat) (rest : List Char) :
    compact (layout.between depth rest) = compact rest := by
  cases layout with
  | line => rw [Layout.between, compact, List.filter_cons_of_neg (by simp), compact]
  | indented blanks => exact compact_lineBreak (.indented blanks) depth rest

mutual

theorem compact_write (layout other : Layout) (depth level : Nat) (document : Document)
    {rest more : List Char} (same : compact rest = compact more) :
    compact (write layout depth document rest) = compact (write other level document more) := by
  match document with
  | .number value =>
      rw [write, write]
      exact compact_append_congr _ same
  | .word tag =>
      rw [write, write]
      exact compact_cons_congr _ (compact_append_congr _ (compact_cons_congr _ same))
  | .list [] =>
      rw [write, write]
      exact compact_cons_congr _ (compact_cons_congr _ same)
  | .list (first :: others) =>
      rw [write, write]
      apply compact_cons_congr
      rw [compact_lineBreak, compact_lineBreak]
      exact compact_write layout other _ _ first (compact_writeOthers layout other _ _ others same)
  | .entry tag value =>
      rw [write, write]
      apply compact_cons_congr
      rw [compact_lineBreak, compact_lineBreak]
      refine compact_cons_congr _ (compact_append_congr _ ?_)
      iterate 3 apply compact_cons_congr
      apply compact_write layout other _ _ value
      rw [compact_lineBreak, compact_lineBreak]
      exact compact_cons_congr _ same

theorem compact_writeOthers (layout other : Layout) (depth level : Nat) (others : List Document)
    {rest more : List Char} (same : compact rest = compact more) :
    compact (writeOthers layout depth others rest) =
      compact (writeOthers other level others more) := by
  match others with
  | [] =>
      rw [writeOthers, writeOthers, compact_lineBreak, compact_lineBreak]
      exact compact_cons_congr _ same
  | item :: others =>
      rw [writeOthers, writeOthers]
      apply compact_cons_congr
      rw [compact_between, compact_between]
      exact compact_write layout other _ _ item (compact_writeOthers layout other _ _ others same)

end

end Document

namespace Tree

mutual

theorem ofDocument?_toDocument (tree : Tree) : ofDocument? (toDocument tree) = some tree := by
  match tree with
  | .block children => rw [toDocument, ofDocument?, ofDocuments?_toDocuments children, Option.map_some]
  | .loop body => rw [toDocument, ofDocument?, ofDocument?_toDocument body, Option.map_some]
  | .move _ | .add _ | .set _ | .print | .read | .addTo _ => rw [toDocument, ofDocument?]

theorem ofDocuments?_toDocuments (nodes : List Tree) :
    ofDocuments? (toDocuments nodes) = some nodes := by
  match nodes with
  | [] => rw [toDocuments, ofDocuments?]
  | node :: rest =>
      rw [toDocuments, ofDocuments?, ofDocument?_toDocument node, ofDocuments?_toDocuments rest]

end

/-- Writing loses nothing, whatever the layout: the text of a tree is read back as its document and
this as the tree, so no two trees have the same text. The layout is in the blanks and line feeds. -/
theorem text_lossless (layout : Layout) :
    (∀ tree, Document.ofText? (text layout tree) = some (toDocument tree) ∧
      ofDocument? (toDocument tree) = some tree) ∧
    Function.Injective (text layout) ∧
    ∀ other tree, Document.compact (text layout tree).toList =
      Document.compact (text other tree).toList := by
  have readBack (tree : Tree) : Document.ofText? (text layout tree) = some (toDocument tree) :=
    Document.ofText?_text layout (toDocument tree)
  refine ⟨fun tree => ⟨readBack tree, ofDocument?_toDocument tree⟩, ?_, ?_⟩
  · intro first second same
    have documents := readBack first
    rw [same, readBack second] at documents
    have trees := ofDocument?_toDocument first
    rw [← Option.some.inj documents, ofDocument?_toDocument second] at trees
    exact (Option.some.inj trees).symm
  · intro other tree
    rw [text, text, Document.text, Document.text, String.toList_ofList, String.toList_ofList]
    exact Document.compact_write layout other 0 0 _ rfl

end Tree

end TapeTree
