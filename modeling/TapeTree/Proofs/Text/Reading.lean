import TapeTree.Text.Lines
import TapeTree.Text.Numeral

/-! Texts are read back as they were written: numerals, numbers in columns, and lines. -/

namespace TapeTree.Text

/-! Numerals. -/

theorem digit?_of_isDigit {char : Char} (digit : char.isDigit) :
    digit? char = some (char.toNat - '0'.toNat) := by
  obtain ⟨least, most⟩ : 0x30 ≤ char.toNat ∧ char.toNat ≤ 0x39 := Char.isDigit_iff_toNat.mp digit
  have found : decimalZeros.find? (fun first => first ≤ char.toNat && char.toNat < first + 10) =
      some 0x30 := by
    rw [decimalZeros, List.find?_cons_of_pos]
    simp only [Bool.and_eq_true, decide_eq_true_eq]
    omega
  rw [digit?, found]
  rfl

theorem digits?_of_isDigit {chars : List Char} (filled : chars ≠ [])
    (digits : ∀ char ∈ chars, char.isDigit) :
    digits? chars = some (chars.map fun char => char.toNat - '0'.toNat) := by
  induction chars with
  | nil => exact absurd rfl filled
  | cons char rest ih =>
      have first := digit?_of_isDigit (digits char (by simp))
      cases rest with
      | nil => simp [digits?, first]
      | cons second rest =>
          have later := ih (by simp) (fun other member => digits other (by simp [member]))
          have noUnderscore : second ≠ '_' := by
            intro underscore
            have digit := digits second (by simp)
            rw [underscore] at digit
            cases digit
          rw [digits?, first, later]
          · rfl
          · intro empty
            cases empty
          · rintro other ⟨⟩
            exact noUnderscore rfl

theorem isDigit_of_mem_decimal {number : Nat} {char : Char}
    (member : char ∈ Nat.toDigits 10 number) : char.isDigit :=
  Nat.isDigit_of_mem_toDigits (by decide) (by decide) member

theorem readNat?_toDigits (number : Nat) : readNat? (Nat.toDigits 10 number) = some number := by
  have digits : ∀ char ∈ Nat.toDigits 10 number, char.isDigit := fun _ => isDigit_of_mem_decimal
  rw [readNat?, digits?_of_isDigit Nat.toDigits_ne_nil digits, Option.map_some, List.foldl_map,
    ← Nat.ofDigitChars_eq_foldl, Nat.ofDigitChars_ten_toDigits]

def IsNumeric (char : Char) : Prop :=
  char.isDigit ∨ char = '-'

theorem toList_toString_nat (number : Nat) : (toString number).toList = Nat.toDigits 10 number := by
  rw [Nat.toString_eq_ofList_toDigits, String.toList_ofList]

theorem toList_toString_ofNat (size : Nat) :
    (toString (Int.ofNat size)).toList = Nat.toDigits 10 size :=
  toList_toString_nat size

theorem toList_toString_negSucc (size : Nat) :
    (toString (Int.negSucc size)).toList = '-' :: Nat.toDigits 10 (size + 1) := by
  rw [← toList_toString_nat]
  exact String.toList_append

theorem isNumeric_of_mem_toString {number : Int} {char : Char}
    (member : char ∈ (toString number).toList) : IsNumeric char := by
  cases number with
  | ofNat size =>
      rw [toList_toString_ofNat] at member
      exact Or.inl (isDigit_of_mem_decimal member)
  | negSucc size =>
      rw [toList_toString_negSucc] at member
      rcases List.mem_cons.mp member with minus | later
      · exact Or.inr minus
      · exact Or.inl (isDigit_of_mem_decimal later)

/-! Numbers in columns. -/

def words (text : List Char) : List (List Char) :=
  (text.splitOn ' ').filter (· ≠ [])

theorem words_append_blank (front back : List Char) :
    words (front ++ ' ' :: back) = words front ++ words back := by
  rw [words, List.splitOn_eq_splitOnP, List.splitOnP_append_cons _ _ (by simp),
    List.filter_append]
  rfl

theorem words_replicate_append (count : Nat) (text : List Char) :
    words (List.replicate count ' ' ++ text) = words text := by
  induction count with
  | zero => rfl
  | succ count ih =>
      have skipped := words_append_blank [] (List.replicate count ' ' ++ text)
      rw [List.replicate_succ]
      exact skipped.trans ih

theorem words_of_noBlank {text : List Char} (filled : text ≠ []) (single : ' ' ∉ text) :
    words text = [text] := by
  rw [words, List.splitOn_eq_splitOnP, List.splitOnP_eq_singleton]
  · simp [filled]
  · intro char member
    simp
    rintro rfl
    exact single member

theorem toList_alignRight (width : Nat) (number : Int) :
    (alignRight width number).toList =
      List.replicate (width - (toString number).length) ' ' ++ (toString number).toList := by
  rw [alignRight, String.toList_append, String.toList_ofList]

theorem toList_alignRight_nat (width number : Nat) :
    (alignRight width number).toList =
      List.replicate (width - (Nat.toDigits 10 number).length) ' ' ++ Nat.toDigits 10 number := by
  have digits : (toString (number : Int)).toList = Nat.toDigits 10 number :=
    toList_toString_ofNat number
  rw [toList_alignRight, ← String.length_toList, digits]

theorem words_alignRight (width number : Nat) :
    words (alignRight width number).toList = [Nat.toDigits 10 number] := by
  rw [toList_alignRight_nat, words_replicate_append]
  apply words_of_noBlank Nat.toDigits_ne_nil
  intro blank
  have digit := isDigit_of_mem_decimal blank
  cases digit

theorem mem_alignRight {width : Nat} {number : Int} {char : Char}
    (member : char ∈ (alignRight width number).toList) : char = ' ' ∨ IsNumeric char := by
  rw [toList_alignRight] at member
  rcases List.mem_append.mp member with blank | numeral
  · exact Or.inl (List.eq_of_mem_replicate blank)
  · exact Or.inr (isNumeric_of_mem_toString numeral)

/-! Lines. -/

theorem lines_cons (char : Char) (rest : List Char) :
    lines (char :: rest) =
      if char = '\n' then [] :: lines rest else (lines rest).modifyHead (char :: ·) := rfl

theorem lines_eq_splitOn (text : List Char) : lines text = text.splitOn '\n' := by
  rw [List.splitOn_eq_splitOnP]
  induction text with
  | nil => rfl
  | cons char rest ih =>
      rw [lines_cons, ih, List.splitOnP_cons_eq_if_modifyHead]
      simp

theorem lines_ne_nil (text : List Char) : lines text ≠ [] := by
  rw [lines_eq_splitOn, List.splitOn_eq_splitOnP]
  exact List.splitOnP_ne_nil _ text

theorem lines_append {front : List Char} (single : '\n' ∉ front) (rest : List Char) :
    lines (front ++ '\n' :: rest) = front :: lines rest := by
  induction front with
  | nil => rw [List.nil_append, lines_cons, if_pos rfl]
  | cons char front ih =>
      obtain ⟨other, single⟩ : '\n' ≠ char ∧ '\n' ∉ front := by simpa using single
      rw [List.cons_append, lines_cons, if_neg other.symm, ih single]
      rfl

theorem not_mem_of_mem_lines {text line : List Char} (member : line ∈ lines text) :
    '\n' ∉ line := by
  induction text generalizing line with
  | nil =>
      rw [List.mem_singleton.mp member]
      exact List.not_mem_nil
  | cons char rest ih =>
      rw [lines_cons] at member
      split at member
      · rcases List.mem_cons.mp member with rfl | later
        · exact List.not_mem_nil
        · exact ih later
      · rename_i other
        cases below : lines rest with
        | nil => exact absurd below (lines_ne_nil rest)
        | cons first others =>
            rw [below, List.modifyHead_cons] at member
            rcases List.mem_cons.mp member with rfl | later
            · intro newline
              rcases List.mem_cons.mp newline with same | inside
              · exact other same.symm
              · exact ih (by rw [below]; exact List.mem_cons_self) inside
            · exact ih (by rw [below]; exact List.mem_cons_of_mem _ later)

theorem lines_intercalate {rows : List String} (filled : rows ≠ [])
    (single : ∀ row ∈ rows, '\n' ∉ row.toList) :
    lines ("\n".intercalate rows).toList = rows.map String.toList := by
  rw [lines_eq_splitOn, String.toList_intercalate]
  apply List.splitOn_intercalate
  · simpa using single
  · simpa using filled

end TapeTree.Text
