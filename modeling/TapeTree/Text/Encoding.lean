/-! From the bytes of a file to a text: decoding, and line ends of every convention as line feeds. -/

namespace TapeTree

inductive Encoding where
  | utf8
  | latin1
  | ascii
deriving DecidableEq

namespace Encoding

/-- The text that bytes encode, if they are well formed. A byte order mark is a character. -/
def decode? (encoding : Encoding) (bytes : ByteArray) : Option String :=
  match encoding with
  | utf8 => String.fromUTF8? bytes
  | latin1 => some (String.ofList (bytes.toList.map fun byte => Char.ofNat byte.toNat))
  | ascii =>
      if bytes.toList.all (· < 128) then
        some (String.ofList (bytes.toList.map fun byte => Char.ofNat byte.toNat))
      else none

end Encoding

def Text.unifyLineEnds : List Char → List Char
  | '\r' :: '\n' :: rest => '\n' :: unifyLineEnds rest
  | '\r' :: rest => '\n' :: unifyLineEnds rest
  | char :: rest => char :: unifyLineEnds rest
  | [] => []

def Encoding.readText? (encoding : Encoding) (bytes : ByteArray) : Option String :=
  (encoding.decode? bytes).map fun text => String.ofList (Text.unifyLineEnds text.toList)

end TapeTree
