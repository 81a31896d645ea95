import TapeTree.Document
import TapeTree.Text.Lines

/-! Reading documents back from JSON text, with blanks and line feeds anywhere between its signs. -/

namespace TapeTree.Document

def skipBlanks (text : List Char) : List Char :=
  text.dropWhile fun char => char = ' ' || char = '\n'

def afterSign? (sign : Char) (text : List Char) : Option (List Char) :=
  match skipBlanks text with
  | [] => none
  | char :: rest => if char = sign then some (skipBlanks rest) else none

def tags : List Tag :=
  [.movePointer, .addValue, .setValue, .print, .read, .list, .jump, .addTo]

def readTag? (text : List Char) : Option (Tag × List Char) :=
  match text with
  | '\x22' :: rest =>
      match rest.dropWhile (· ≠ '\x22') with
      | [] => none
      | _ :: after =>
          (tags.find? fun tag => tag.name.toList = rest.takeWhile (· ≠ '\x22')).map (·, after)
  | _ => none

def readDigits (text : List Char) : Option (Nat × List Char) :=
  match text.takeWhile Char.isDigit with
  | [] => none
  | digits =>
      some (digits.foldl (fun number digit => 10 * number + (digit.toNat - '0'.toNat)) 0,
        text.dropWhile Char.isDigit)

def readNumber? : List Char → Option (Int × List Char)
  | '-' :: rest => (readDigits rest).map fun read => (-(read.1 : Int), read.2)
  | text => (readDigits text).map fun read => ((read.1 : Int), read.2)

mutual

/-- A document at the start of a text, and what comes after it. Every level of it takes fuel. -/
def readDocument? : Nat → List Char → Option (Document × List Char)
  | 0, _ => none
  | fuel + 1, text =>
      match text with
      | '[' :: rest =>
          match afterSign? ']' rest with
          | some after => some (.list [], after)
          | none => (readItems? fuel (skipBlanks rest)).map fun read => (.list read.1, read.2)
      | '\x7b' :: rest =>
          match readTag? (skipBlanks rest) with
          | none => none
          | some (tag, afterTag) =>
              match afterSign? ':' afterTag with
              | none => none
              | some afterColon =>
                  match readDocument? fuel afterColon with
                  | none => none
                  | some (value, afterValue) =>
                      (afterSign? '\x7d' afterValue).map fun after => (.entry tag value, after)
      | '\x22' :: _ => (readTag? text).map fun read => (.word read.1, read.2)
      | _ => (readNumber? text).map fun read => (.number read.1, read.2)

def readItems? : Nat → List Char → Option (List Document × List Char)
  | 0, _ => none
  | fuel + 1, text =>
      match readDocument? fuel text with
      | none => none
      | some (item, afterItem) =>
          match afterSign? ',' afterItem with
          | some rest => (readItems? fuel rest).map fun read => (item :: read.1, read.2)
          | none => (afterSign? ']' afterItem).map fun after => ([item], after)

end

def ofText? (text : String) : Option Document :=
  match readDocument? (text.length + 1) (skipBlanks text.toList) with
  | some (document, []) => some document
  | some (document, rest) => if skipBlanks rest = [] then some document else none
  | none => none

end TapeTree.Document
