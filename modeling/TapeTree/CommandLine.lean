import TapeTree.CommandLine.Arguments
import TapeTree.Machine.Session
import TapeTree.Tree.Document

/-! What the command line does with a file: it shows the tree, runs it and shows the tape, or
only strips the comments. All of it is a function of the arguments, the file and the input. -/

namespace TapeTree.CommandLine

/-- Times in hundredths of a millisecond. -/
structure Durations where
  loading : Nat := 0
  running : Nat := 0

/-- What ends the program without an exit code of its own. -/
inductive Breakdown where
  | unreadable (fault : FileFault)
  | undecodable
  /-- The number of an option is needed, but the option was left without one. -/
  | missingNumber (quantity : Quantity)
  | noCells (why : WindowFault)
deriving DecidableEq

def Breakdown.message : Breakdown → String
  | .unreadable .missing => "there is no such file"
  | .unreadable .isDirectory => "the file is a directory"
  | .unreadable .notDirectory => "the path leads through a file"
  | .unreadable .nameTooLong => "the file name is too long"
  | .unreadable .nullCharacter => "the file name has a null character in it"
  | .undecodable => "the file is not valid UTF-8"
  | .missingNumber quantity => (Switch.quantity quantity).title ++ " was given without a number"
  | .noCells (.noArray _) => "there are too many cells to print"
  | .noCells .notByte => "a cell is not a byte"

inductive Ending where
  | exit (code : Nat)
  | broken (why : Breakdown)
deriving DecidableEq

structure Report where
  output : List UInt8 := []
  errors : String := ""
  ending : Ending := .exit 0

def bytes (text : String) : List UInt8 :=
  text.toUTF8.data.toList

def unopened (file : String) : FileFault → Report
  | .missing => { errors := "Couldn't find file: " ++ file ++ "\n", ending := .exit 1 }
  | fault => { ending := .broken (.unreadable fault) }

def refusal (file : String) : FileError → Report
  | .unreadable fault => unopened file fault
  | .undecodable => { ending := .broken .undecodable }
  | .parse error => { errors := error.message ++ "\n", ending := .exit 1 }

def stripped (file : String) (contents : Except FileFault ByteArray) : Report :=
  match contents with
  | .error fault => unopened file fault
  | .ok encoded =>
      match Encoding.utf8.readText? encoded with
      | none => { ending := .broken .undecodable }
      | some source => { output := bytes (Command.strip source ++ "\n") }

namespace Settings

/-- The path that is opened for a file. Only a program that is run has its path tidied. -/
def path (settings : Settings) (file : String) : String :=
  if settings.strip then file else tidyPath file

def programOptions (settings : Settings) (passes : Int) : ProgramOptions :=
  { passes := if settings.fixedPoint then none else some (max 0 passes)
    strict := settings.strict
    optimize := settings.optimize }

def load (settings : Settings) (passes : Int) (contents : Except FileFault ByteArray) :
    Except FileError Program :=
  Program.ofFile (settings.programOptions passes) .utf8 contents

def execute (settings : Settings) (fuel : Nat) (program : Program) (input : List UInt8) :
    Option Outcome :=
  match settings.stepLimit with
  | none => some (program.tree.run none fuel input)
  | some (.number limit) => some (program.tree.run (some limit) fuel input)
  | some .void => none

end Settings

def milliseconds (hundredths : Nat) : String :=
  toString (hundredths / 100) ++ "." ++ toString (hundredths / 10 % 10)
    ++ toString (hundredths % 10) ++ " ms"

def loadingLine (program : Program) (durations : Durations) : String :=
  "Translation took " ++ milliseconds durations.loading ++ " ("
    ++ toString program.passesRun ++ " passes, " ++ toString program.raw.size ++ " -> "
    ++ toString program.tree.size ++ " nodes)\n"

def runningLine (machine : Machine) (durations : Durations) : String :=
  "Execution took " ++ milliseconds durations.running ++ " ("
    ++ toString machine.steps ++ " steps)\n"

def rowWidth : Nat := 8

def tapeRow (cells : List UInt8) (first : Nat) : String :=
  Text.alignRight 5 first ++ ": "
    ++ " ".intercalate (((cells.drop first).take rowWidth).map fun cell =>
      Text.alignRight 3 cell.toNat) ++ "\n"

def tapeRows (cells : List UInt8) : String :=
  String.join ((List.range ((cells.length + rowWidth - 1) / rowWidth)).map fun row =>
    tapeRow cells (rowWidth * row))

def tapeText (machine : Machine) (cells : List UInt8) : String :=
  "pointer=" ++ toString machine.tape.pointer ++ " steps=" ++ toString machine.steps ++ "\n"
    ++ tapeRows cells

def Report.withTape (zeros : ArrayMaker) (report : Report) (machine : Machine) (width : Int) :
    Report :=
  let begun := { report with output := report.output ++ bytes "\n" }
  match machine.tape.snapshot zeros 0 width with
  | .error why => { begun with ending := .broken (.noCells why) }
  | .ok cells => { begun with output := begun.output ++ bytes (tapeText machine cells.toList) }

namespace Settings

def reportLoaded (settings : Settings) (program : Program) (durations : Durations) : Report :=
  { output :=
      if settings.showTree then bytes (program.tree.text (.indented 2) ++ "\n") else []
    errors := if settings.showTimes then loadingLine program durations else "" }

def reportFinished (zeros : ArrayMaker) (settings : Settings) (before : Report)
    (machine : Machine) (durations : Durations) : Report :=
  let report : Report :=
    { output := before.output ++ machine.console.output.toList
      errors :=
        before.errors ++ if settings.showTimes then runningLine machine durations else "" }
  match settings.tapeWidth with
  | .void => { report with ending := .broken (.missingNumber .dumpTape) }
  | .number width => if 0 < width then report.withTape zeros machine width else report

/-- What is reported of a program and its run. A run that halts shows no tape, but keeps the bytes
that were put out before. -/
def report (zeros : ArrayMaker) (settings : Settings) (program : Program)
    (outcome : Option Outcome) (durations : Durations) : Report :=
  let before := settings.reportLoaded program durations
  match outcome with
  | none => { before with ending := .broken (.missingNumber .maxSteps) }
  | some (.halted halt machine) =>
      { output := before.output ++ machine.console.output.toList
        errors := before.errors ++ halt.message ++ "\n"
        ending := .exit 1 }
  | some (.finished machine) => settings.reportFinished zeros before machine durations

def perform (zeros : ArrayMaker) (settings : Settings) (fuel : Nat) (file : String)
    (contents : Except FileFault ByteArray) (input : List UInt8) (durations : Durations) :
    Report :=
  match settings.passes with
  | .void => { ending := .broken (.missingNumber .passes) }
  | .number passes =>
      if settings.strip then stripped file contents
      else
        match settings.load passes contents with
        | .error error => refusal file error
        | .ok program =>
            settings.report zeros program (settings.execute fuel program input) durations

end Settings

def UsageError.report (error : UsageError) : Report :=
  { errors := error.message ++ "\n", ending := .exit 2 }

def helpText : String :=
  "usage: bftree [options] file\n\n"
    ++ "Shows and runs a program as an optimized tree.\n\n"
    ++ "  -h, --help       show this help and exit\n"
    ++ "  --passes N       optimizer passes (default " ++ toString defaultPasses ++ ")\n"
    ++ "  --fixed-point    optimize until the tree stops changing\n"
    ++ "  --no-optimize    run the unoptimized tree\n"
    ++ "  --strict         treat an unterminated '[' as an error\n"
    ++ "  --no-tree        do not print the tree before running it\n"
    ++ "  --max-steps N    stop the run after N steps\n"
    ++ "  --dump-tape N    print the first N tape cells after the run\n"
    ++ "  --time           report times with the errors\n"
    ++ "  --strip          print the program without comments and exit\n"

def helpReport : Report :=
  { output := bytes helpText }

def run (zeros : ArrayMaker) (fuel : Nat) (arguments : List String) (directory : Directory)
    (input : List UInt8) (durations : Durations) : Report :=
  match readArguments arguments with
  | .error error => error.report
  | .ok .help => helpReport
  | .ok (.run file settings) =>
      settings.perform zeros fuel file (directory.read (settings.path file)) input durations

end TapeTree.CommandLine
