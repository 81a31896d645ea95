import TapeTree.Command
import TapeTree.Machine.Console

/-! The commands run one by one, with a position among them and jumps between brackets. No tree
is built: this is what a source text means. -/

namespace TapeTree

namespace Command

/-- How far ahead the bracket stands that closes the loop, with `depth` loops inside it open. -/
def closeAhead? (depth : Nat) : List Command → Option Nat
  | [] => none
  | .openLoop :: rest => (closeAhead? (depth + 1) rest).map (· + 1)
  | .closeLoop :: rest =>
      match depth with
      | 0 => some 0
      | depth + 1 => (closeAhead? depth rest).map (· + 1)
  | _ :: rest => (closeAhead? depth rest).map (· + 1)

/-- How far back the bracket stands that opens the loop. The commands are given from the last one
to the first. -/
def openBehind? (depth : Nat) : List Command → Option Nat
  | [] => none
  | .closeLoop :: rest => (openBehind? (depth + 1) rest).map (· + 1)
  | .openLoop :: rest =>
      match depth with
      | 0 => some 0
      | depth + 1 => (openBehind? depth rest).map (· + 1)
  | _ :: rest => (openBehind? depth rest).map (· + 1)

def partnerAhead? (commands : List Command) (position : Nat) : Option Nat :=
  (closeAhead? 0 (commands.drop (position + 1))).map (position + 1 + ·)

def partnerBehind? (commands : List Command) (position : Nat) : Option Nat :=
  (openBehind? 0 (commands.take position).reverse).map (position - 1 - ·)

end Command

structure FlatMachine where
  position : Nat := 0
  cells : Int → UInt8 := fun _ => 0
  pointer : Int := 0
  console : Console := {}

inductive FlatStep where
  | next (machine : FlatMachine)
  | finished
  | failed (fault : IoFault) (machine : FlatMachine)

namespace FlatMachine

def current (machine : FlatMachine) : UInt8 :=
  machine.cells machine.pointer

def setCurrent (machine : FlatMachine) (value : UInt8) : FlatMachine :=
  { machine with
    cells := fun address => if address = machine.pointer then value else machine.cells address }

def advance (machine : FlatMachine) : FlatMachine :=
  { machine with position := machine.position + 1 }

def jump (machine : FlatMachine) : Option Nat → FlatStep
  | some position => .next { machine with position }
  | none => .finished

def step (faults : Faults) (commands : List Command) (machine : FlatMachine) : FlatStep :=
  match commands[machine.position]? with
  | none => .finished
  | some .right => .next { machine with pointer := machine.pointer + 1 }.advance
  | some .left => .next { machine with pointer := machine.pointer - 1 }.advance
  | some .increment => .next (machine.setCurrent (machine.current + 1)).advance
  | some .decrement => .next (machine.setCurrent (machine.current - 1)).advance
  | some .print =>
      match machine.console.write faults machine.current with
      | (.ok _, console) => .next { machine with console }.advance
      | (.error fault, console) => .failed fault { machine with console }
  | some .read =>
      match machine.console.read faults with
      | (.ok byte, console) => .next ({ machine with console }.setCurrent byte).advance
      | (.error fault, console) => .failed fault { machine with console }
  | some .openLoop =>
      if machine.current = 0 then
        machine.jump ((Command.partnerAhead? commands machine.position).map (· + 1))
      else .next machine.advance
  | some .closeLoop => machine.jump (Command.partnerBehind? commands machine.position)

end FlatMachine

inductive FlatEnd where
  | finished (machine : FlatMachine)
  | failed (fault : IoFault) (machine : FlatMachine)

def FlatMachine.run? (faults : Faults) (commands : List Command) :
    Nat → FlatMachine → Option FlatEnd
  | 0, _ => none
  | count + 1, machine =>
      match machine.step faults commands with
      | .next after => after.run? faults commands count
      | .finished => some (.finished machine)
      | .failed fault after => some (.failed fault after)

end TapeTree
