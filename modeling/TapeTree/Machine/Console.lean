/-! Input and output of a run, byte by byte, with the calls that carry them. A call may fail. -/

namespace TapeTree

/-- Which calls fail, by their number from zero, and with what text. -/
structure Faults where
  read : Nat → Option String := fun _ => none
  write : Nat → Option String := fun _ => none
  flush : Nat → Option String := fun _ => none

structure Console where
  input : List UInt8 := []
  output : Array UInt8 := #[]
  reads : Nat := 0
  writes : Nat := 0
  flushes : Nat := 0
  flushed : Nat := 0

inductive IoFault where
  | endOfInput
  | readFailed (text : String)
  | writeFailed (text : String)
deriving DecidableEq

def IoFault.message : IoFault → String
  | .endOfInput => "IOError: unexpected end of input"
  | .readFailed text => "IOError: read failed: " ++ text
  | .writeFailed text => "IOError: write failed: " ++ text

namespace Console

/-- Takes the next byte. At the end of the input the call is made all the same. -/
def read (faults : Faults) (console : Console) : Except IoFault UInt8 × Console :=
  let called := { console with reads := console.reads + 1 }
  match faults.read console.reads with
  | some text => (.error (.readFailed text), called)
  | none =>
      match console.input with
      | [] => (.error .endOfInput, called)
      | byte :: rest => (.ok byte, { called with input := rest })

def flush (faults : Faults) (console : Console) : Except IoFault Unit × Console :=
  let called := { console with flushes := console.flushes + 1 }
  match faults.flush console.flushes with
  | some text => (.error (.writeFailed text), called)
  | none => (.ok (), { called with flushed := console.flushed + 1 })

def write (faults : Faults) (byte : UInt8) (console : Console) : Except IoFault Unit × Console :=
  let called := { console with writes := console.writes + 1 }
  match faults.write console.writes with
  | some text => (.error (.writeFailed text), called)
  | none => { called with output := console.output.push byte }.flush faults

end Console

end TapeTree
