import TapeTree.Diagnostic
import TapeTree.Tree.Build

/-! From source texts to trees. An error of the builder says nothing about its place: the stream of
tokens keeps account of what was taken from it, and the error is reported where that points to. -/

namespace TapeTree

inductive ParseError where
  | unmatched (report : Diagnostic)
  | tooDeep
deriving DecidableEq

def ParseError.message : ParseError → String
  | .unmatched report => report.message
  | .tooDeep => BuildError.tooDeep.summary

/-- The token that was taken last, and the opening brackets that no closing one was taken for, the
innermost first. -/
structure Trail where
  last : Option Token := none
  opened : List Token := []

namespace Trail

def take (trail : Trail) (token : Token) : Trail :=
  { last := some token
    opened :=
      match token.command with
      | .openLoop => token :: trail.opened
      | .closeLoop => trail.opened.tail
      | _ => trail.opened }

def ofTaken (tokens : List Token) : Trail :=
  tokens.foldl take {}

/-- The token that an error is reported at. A closing bracket is only refused with no loop open. -/
def blamed? (trail : Trail) : Option Token :=
  trail.opened.head?.or trail.last

end Trail

def BuildError.inSource (source : String) (blamed? : Option Token) : BuildError → ParseError
  | .tooDeep => .tooDeep
  | error =>
      match blamed? with
      | some token => .unmatched (.locate error.summary source token.line token.column)
      | none => .unmatched (.locate error.summary source 1 0)

namespace Tree

def parse (strict : Bool) (source : String) : Except ParseError Tree :=
  let tokens := Token.ofSource source
  let built := build { strict } tokens
  let taken := tokens.take (tokens.length - built.rest.length)
  built.result.mapError (BuildError.inSource source (Trail.ofTaken taken).blamed?)

end Tree

end TapeTree
