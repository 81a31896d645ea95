import TapeTree.Program

/-! Sessions: requests to one machine, one after another. After a failure a session goes on with
the machine as the failure left it. -/

namespace TapeTree

inductive Request (Hole : Type) where
  | move (distance : Int)
  | get (offset : Int)
  | set (offset value : Int)
  | write (value : Int)
  | read
  | reset
  | execute (tree : Node Hole)
  | executeSource (source : String) (passes : Option (Option Int))
  | snapshot (start : Int) (stop : Option Int)

inductive Answer where
  | done
  | number (value : Int)
  | bytes (values : Array UInt8)
  | halted (halt : Halt)
  | parseError (error : ParseError)
  | notBytes
  | tooWide (why : SizeFault)

def Tape.showCells (zeros : ArrayMaker) (tape : Tape) (start stop : Int) : Answer :=
  match tape.snapshot zeros start stop with
  | .ok cells => .bytes cells
  | .error .notByte => .notBytes
  | .error (.noArray why) => .tooWide why

namespace Machine

def reset (machine : Machine) : Machine :=
  { machine with tape := {}, steps := 0 }

def answered : Outcome → Answer × Machine
  | .finished machine => (.done, machine)
  | .halted halt machine => (.halted halt, machine)

def perform {Hole : Type} (zeros : ArrayMaker) (setup : Setup) (fuel : Nat) (machine : Machine) :
    Request Hole → Answer × Machine
  | .move distance => (.done, machine.move distance)
  | .get offset => (.number (machine.tape.get offset), machine)
  | .set offset value => (.done, { machine with tape := machine.tape.set offset value })
  | .write value => answered (machine.write setup.faults value)
  | .read =>
      match machine.console.read setup.faults with
      | (.ok byte, console) => (.number byte.toNat, { machine with console })
      | (.error fault, console) => (.halted (.fault fault), { machine with console })
  | .reset => (.done, machine.reset)
  | .execute tree => answered (tree.execute setup fuel machine)
  | .executeSource source passes =>
      match Tree.parse false source with
      | .error error => (.parseError error, machine)
      | .ok tree =>
          match passes with
          | none => answered (tree.execute setup fuel machine)
          | some count => answered ((tree.runPasses count).tree.execute setup fuel machine)
  | .snapshot start stop => (machine.tape.showCells zeros start (stop.getD (start + 1)), machine)

/-- Performs requests in order, and keeps each answer with the machine after it. -/
def performAll {Hole : Type} (zeros : ArrayMaker) (setup : Setup) (fuel : Nat)
    (machine : Machine) : List (Request Hole) → List (Answer × Machine)
  | [] => []
  | request :: rest =>
      let result := machine.perform zeros setup fuel request
      result :: performAll zeros setup fuel result.2 rest

end Machine

end TapeTree
