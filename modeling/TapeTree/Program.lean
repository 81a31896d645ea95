import TapeTree.Files
import TapeTree.Machine
import TapeTree.Optimize.Passes
import TapeTree.Parse
import TapeTree.Text.Encoding

/-! Programs: source texts and files made ready to run, and their runs on a blank tape. -/

namespace TapeTree

structure ProgramOptions where
  /-- How many passes the optimizer runs, or `none` to go on until the tree stops changing. -/
  passes : Option Int := some defaultPasses
  strict : Bool := false
  optimize : Bool := true

structure Program where
  raw : Tree
  tree : Tree
  passesRun : Nat

inductive FileError where
  | unreadable (fault : FileFault)
  | undecodable
  | parse (error : ParseError)
deriving DecidableEq

namespace Program

def ofSource (options : ProgramOptions) (source : String) : Except ParseError Program :=
  (Tree.parse options.strict source).map fun raw =>
    if options.optimize then
      let passed := raw.runPasses options.passes
      ⟨raw, passed.tree, passed.count⟩
    else ⟨raw, raw, 0⟩

def ofFile (options : ProgramOptions) (encoding : Encoding)
    (contents : Except FileFault ByteArray) : Except FileError Program :=
  match contents with
  | .error fault => .error (.unreadable fault)
  | .ok bytes =>
      match encoding.readText? bytes with
      | none => .error .undecodable
      | some source => (ofSource options source).mapError .parse

end Program

def Node.run {Hole : Type} (tree : Node Hole) (stepLimit : Option Int) (fuel : Nat)
    (input : List UInt8) : Outcome :=
  tree.execute { stepLimit } fuel { console := { input } }

def runSource (options : ProgramOptions) (stepLimit : Option Int) (fuel : Nat) (source : String)
    (input : List UInt8) : Except ParseError (Program × Outcome) :=
  (Program.ofSource options source).map fun program =>
    (program, program.tree.run stepLimit fuel input)

end TapeTree
