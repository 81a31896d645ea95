import TapeTree.CommandLine

/-! The program: reads the file and the input, and prints the report as it grows. -/

namespace TapeTree.CommandLine

def zeros : ArrayMaker :=
  zerosWithin fun _ => true

def fileContents (path : String) : IO (Except FileFault ByteArray) := do
  try
    .ok <$> IO.FS.readBinFile path
  catch
    | .noFileOrDirectory .. => pure (.error .missing)
    | error => throw error

def hundredthsSince (start : Nat) : IO Nat := do
  let now ← IO.monoNanosNow
  pure ((now - start) / 10000)

def printOutput (report : Report) (printed : Nat) : IO Unit := do
  let output ← IO.getStdout
  output.write ⟨(report.output.drop printed).toArray⟩
  output.flush

/-- Runs a tree and prints the output. A run that has too little fuel or input is started again
with more of it. It takes the same course as before, so what is printed stays right. -/
partial def follow (settings : Settings) (program : Program) (loadingTime : Nat) (start : Nat)
    (fuel : Nat) (input : List UInt8) (printed : Nat) : IO Report := do
  let outcome ← IO.lazyPure fun _ => settings.execute fuel program input
  let report := settings.report zeros program outcome ⟨loadingTime, ← hundredthsSince start⟩
  printOutput report printed
  let again := follow settings program loadingTime start
  match outcome.bind Outcome.halt? with
  | some .outOfFuel => again (8 * fuel) input report.output.length
  | some (.fault .endOfInput) => do
      let more ← (← IO.getStdin).read (USize.ofNat (4096 + input.length))
      if more.isEmpty then pure report
      else again fuel (input ++ more.toList) report.output.length
  | _ => pure report

def printErrors (report : Report) : IO UInt32 := do
  IO.eprint report.errors
  match report.ending with
  | .exit code => pure (UInt32.ofNat code)
  | .broken why => do
      IO.eprintln why.message
      pure 1

def printAll (report : Report) : IO UInt32 := do
  printOutput report 0
  printErrors report

def loadAndRun (settings : Settings) (passes : Int) (file : String)
    (contents : Except FileFault ByteArray) : IO UInt32 := do
  let start ← IO.monoNanosNow
  match settings.load passes contents with
  | .error error => printAll (refusal file error)
  | .ok program => do
      let loadingTime ← hundredthsSince start
      printErrors (← follow settings program loadingTime (← IO.monoNanosNow) 4096 [] 0)

def perform (file : String) (settings : Settings) : IO UInt32 := do
  match settings.passes with
  | .void => printAll { ending := .broken (.missingNumber .passes) }
  | .number passes => do
      let contents ← fileContents (settings.path file)
      if settings.strip then printAll (stripped file contents)
      else loadAndRun settings passes file contents

end TapeTree.CommandLine

open TapeTree.CommandLine in
def main (arguments : List String) : IO UInt32 := do
  match readArguments arguments with
  | .error error => printAll error.report
  | .ok .help => printAll helpReport
  | .ok (.run file settings) => perform file settings
