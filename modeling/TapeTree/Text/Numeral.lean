/-! Reading whole numbers as people write them: blanks around the number, a sign, digits of any
script, and single underscores between digits. -/

namespace TapeTree.Text

/-- The zeros of the decimal digits in version 14 of Unicode. Each is followed by its nine. -/
def decimalZeros : List Nat :=
  [0x30, 0x660, 0x6f0, 0x7c0, 0x966, 0x9e6, 0xa66, 0xae6, 0xb66, 0xbe6, 0xc66, 0xce6, 0xd66,
    0xde6, 0xe50, 0xed0, 0xf20, 0x1040, 0x1090, 0x17e0, 0x1810, 0x1946, 0x19d0, 0x1a80, 0x1a90,
    0x1b50, 0x1bb0, 0x1c40, 0x1c50, 0xa620, 0xa8d0, 0xa900, 0xa9d0, 0xa9f0, 0xaa50, 0xabf0,
    0xff10, 0x104a0, 0x10d30, 0x11066, 0x110f0, 0x11136, 0x111d0, 0x112f0, 0x11450, 0x114d0,
    0x11650, 0x116c0, 0x11730, 0x118e0, 0x11950, 0x11c50, 0x11d50, 0x11da0, 0x16a60, 0x16ac0,
    0x16b50, 0x1d7ce, 0x1d7d8, 0x1d7e2, 0x1d7ec, 0x1d7f6, 0x1e140, 0x1e2f0, 0x1e950, 0x1fbf0]

def digit? (char : Char) : Option Nat :=
  (decimalZeros.find? fun first => first ≤ char.toNat && char.toNat < first + 10).map
    (char.toNat - ·)

def isBlank (char : Char) : Bool :=
  let code := char.toNat
  (9 ≤ code && code ≤ 13) || code = 0x20 || code = 0x85 || code = 0xa0 || code = 0x1680
    || (0x2000 ≤ code && code ≤ 0x200a) || code = 0x2028 || code = 0x2029 || code = 0x202f
    || code = 0x205f || code = 0x3000

def trim (text : List Char) : List Char :=
  ((text.dropWhile isBlank).reverse.dropWhile isBlank).reverse

/-- The values of digits, where one underscore may stand between two of them. -/
def digits? : List Char → Option (List Nat)
  | [] => none
  | [last] => (digit? last).map ([·])
  | char :: '_' :: rest =>
      match digit? char, digits? rest with
      | some value, some values => some (value :: values)
      | _, _ => none
  | char :: rest =>
      match digit? char, digits? rest with
      | some value, some values => some (value :: values)
      | _, _ => none

def readNat? (text : List Char) : Option Nat :=
  (digits? text).map fun values => values.foldl (fun number value => 10 * number + value) 0

def readInt? (text : String) : Option Int :=
  match trim text.toList with
  | '-' :: rest => (readNat? rest).map fun value => -(value : Int)
  | '+' :: rest => (readNat? rest).map Int.ofNat
  | unsigned => (readNat? unsigned).map Int.ofNat

end TapeTree.Text
