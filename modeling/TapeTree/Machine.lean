import TapeTree.Machine.Console
import TapeTree.Machine.Tape
import TapeTree.Tree

/-! The machine that runs trees. Every node and every round of a loop is one step, and a limit
on the steps stops a run at the step that exceeds it. -/

namespace TapeTree

structure Setup where
  faults : Faults := {}
  stepLimit : Option Int := none

structure Machine where
  tape : Tape := {}
  steps : Nat := 0
  console : Console := {}

inductive Halt where
  | fault (cause : IoFault)
  | notByte (value : Int)
  | stepLimit (limit : Int) (steps : Nat)
  /-- There was no instruction to run. -/
  | hole
  /-- The fuel for the rounds of a loop was used up, which says nothing about the run. -/
  | outOfFuel
deriving DecidableEq

def Halt.message : Halt → String
  | .fault cause => cause.message
  | .notByte value => "not a byte: " ++ toString value
  | .stepLimit limit _ => "StepLimitError: exceeded " ++ toString limit ++ " steps"
  | .hole => "not an instruction"
  | .outOfFuel => "out of fuel"

inductive Outcome where
  | finished (machine : Machine)
  | halted (halt : Halt) (machine : Machine)

namespace Outcome

@[inline] def next (first : Outcome) (rest : Machine → Outcome) : Outcome :=
  match first with
  | finished machine => rest machine
  | halted halt machine => halted halt machine

def machine : Outcome → Machine
  | finished machine => machine
  | halted _ machine => machine

def halt? : Outcome → Option Halt
  | finished _ => none
  | halted halt _ => some halt

end Outcome

namespace Machine

def tick (limit : Option Int) (machine : Machine) : Outcome :=
  let counted := { machine with steps := machine.steps + 1 }
  match limit with
  | none => .finished counted
  | some most =>
      if most < counted.steps then .halted (.stepLimit most counted.steps) counted
      else .finished counted

def move (distance : Int) (machine : Machine) : Machine :=
  { machine with tape := machine.tape.move distance }

def setCurrent (value : Int) (machine : Machine) : Machine :=
  { machine with tape := machine.tape.setCurrent value }

def add (amount : Int) (machine : Machine) : Machine :=
  machine.setCurrent ((machine.tape.current + amount) % cellSize)

def addTo (offset : Int) (machine : Machine) : Machine :=
  { machine with
    tape := machine.tape.set offset
      ((machine.tape.get offset + machine.tape.current) % cellSize) }

def write (faults : Faults) (value : Int) (machine : Machine) : Outcome :=
  match byte? value with
  | none => .halted (.notByte value) machine
  | some byte =>
      match machine.console.write faults byte with
      | (.ok _, console) => .finished { machine with console }
      | (.error fault, console) => .halted (.fault fault) { machine with console }

def read (faults : Faults) (machine : Machine) (use : Int → Machine → Outcome) : Outcome :=
  match machine.console.read faults with
  | (.ok byte, console) => use byte.toNat { machine with console }
  | (.error fault, console) => .halted (.fault fault) { machine with console }

def rounds (limit : Option Int) (body : Machine → Outcome) : Nat → Machine → Outcome
  | 0, machine =>
      if machine.tape.current = 0 then .finished machine else .halted .outOfFuel machine
  | fuel + 1, machine =>
      if machine.tape.current = 0 then .finished machine
      else ((machine.tick limit).next body).next (rounds limit body fuel)

end Machine

namespace Node

variable {Hole : Type}

mutual

/-- Runs a tree. Each loop may run up to `fuel` rounds each time it is entered. -/
def execute (setup : Setup) (fuel : Nat) (node : Node Hole) (machine : Machine) : Outcome :=
  (machine.tick setup.stepLimit).next fun machine =>
    match node with
    | .move distance => .finished (machine.move distance)
    | .add amount => .finished (machine.add amount)
    | .set value => .finished (machine.setCurrent value)
    | .print => machine.write setup.faults machine.tape.current
    | .read => machine.read setup.faults fun byte machine => .finished (machine.setCurrent byte)
    | .block children => executeAll setup fuel children machine
    | .loop body => machine.rounds setup.stepLimit (execute setup fuel body) fuel
    | .addTo offset => .finished (machine.addTo offset)
    | .hole _ => .halted .hole machine

def executeAll (setup : Setup) (fuel : Nat) (nodes : List (Node Hole)) (machine : Machine) :
    Outcome :=
  match nodes with
  | [] => .finished machine
  | node :: rest => (execute setup fuel node machine).next (executeAll setup fuel rest)

end

end Node

end TapeTree
