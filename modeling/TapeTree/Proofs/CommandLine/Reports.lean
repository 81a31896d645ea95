import TapeTree.Proofs.CommandLine.Arguments
import TapeTree.Proofs.CommandLine.TapeRows
import TapeTree.Proofs.Machine.Halts

/-! What the command line reports of a file, put together from what loading the program and running
it lead to. -/

namespace TapeTree

namespace Program

theorem ofSource_setsBytes {options : ProgramOptions} {source : String} {program : Program}
    (made : ofSource options source = .ok program) : program.tree.SetsBytes := by
  rw [ofSource] at made
  cases parsed : Tree.parse options.strict source with
  | error =>
      rw [parsed] at made
      cases made
  | ok raw =>
      have sets : raw.SetsBytes := Tree.setsByte_fromCommands.parse_everywhere parsed
      rw [parsed] at made
      cases made
      cases options.optimize with
      | true => exact Node.runPasses_setsBytes sets options.passes
      | false => exact sets

theorem ofFile_cases (options : ProgramOptions) {encoded : ByteArray} {source : String}
    (decoded : Encoding.utf8.readText? encoded = some source) :
    (∃ cause, ofFile options .utf8 (.ok encoded) = .error (.parse cause)) ∨
      ∃ program, ofFile options .utf8 (.ok encoded) = .ok program ∧ program.tree.SetsBytes := by
  rw [ofFile]
  simp only [decoded]
  cases made : ofSource options source with
  | error cause => exact Or.inl ⟨cause, rfl⟩
  | ok program => exact Or.inr ⟨program, rfl, ofSource_setsBytes made⟩

theorem ofFile_unoptimized {options : ProgramOptions} (whole : options.optimize = false)
    {encoded : ByteArray} {source : String}
    (decoded : Encoding.utf8.readText? encoded = some source) {program : Program}
    (made : ofFile options .utf8 (.ok encoded) = .ok program) :
    program.tree = program.raw ∧ program.passesRun = 0 := by
  rw [ofFile] at made
  simp only [decoded, ofSource] at made
  cases parsed : Tree.parse options.strict source with
  | error =>
      rw [parsed] at made
      cases made
  | ok raw =>
      rw [parsed] at made
      simp only [whole] at made
      cases made
      exact ⟨rfl, rfl⟩

end Program

namespace CommandLine

variable {zeros : ArrayMaker}

/-! The tape after a run. -/

theorem Report.withTape_cells (makes : MakesZeros zeros) (report : Report) {machine : Machine}
    {width : Int} (holds : machine.tape.HoldsBytes) {window : Array UInt8}
    (made : zeros width.toNat = .ok window) :
    ∃ cells, report.withTape zeros machine width =
        { report with output := report.output ++ bytes "\n" ++ bytes (tapeText machine cells) } ∧
      (shownCells (tapeText machine cells)).map (fun number : Nat => (number : Int)) =
        (List.range width.toNat).map fun address : Nat => machine.tape.cellAt address := by
  obtain ⟨cells, taken⟩ : ∃ cells, machine.tape.snapshot zeros 0 width = .ok cells :=
    Tape.exists_snapshot holds (by rwa [Int.sub_zero])
  refine ⟨cells.toList, ?_, ?_⟩
  · simp only [withTape, taken]
  · have shown := Tape.map_snapshot makes taken
    simp only [Int.sub_zero, Int.zero_add] at shown
    rw [shownCells_tapeText, List.map_map]
    exact shown

theorem Report.withTape_refused (report : Report) (machine : Machine) {width : Int}
    {why : SizeFault} (refused : zeros width.toNat = .error why) :
    report.withTape zeros machine width =
      { report with
        output := report.output ++ bytes "\n"
        ending := .broken (.noCells (.noArray why)) } := by
  have noWindow : machine.tape.snapshot zeros 0 width = .error (.noArray why) :=
    Tape.snapshot_refused (by rwa [Int.sub_zero]) machine.tape
  simp only [withTape, noWindow]

/-- What is reported of a run: the bytes that were put out, after the ones that were shown before,
then the message of the error that ended it, or else the cells that are asked for. -/
inductive Report.Follows (zeros : ArrayMaker) (before : List UInt8) (limit : Option Int)
    (width : Int) : Outcome → Report → Prop
  | failed {cause machine} :
      Follows zeros before limit width (.halted (.fault cause) machine)
        { output := before ++ machine.console.output.toList
          errors := cause.message ++ "\n"
          ending := .exit 1 }
  | limited {most steps machine} : limit = some most →
      Follows zeros before limit width (.halted (.stepLimit most steps) machine)
        { output := before ++ machine.console.output.toList
          errors := (Halt.stepLimit most steps).message ++ "\n"
          ending := .exit 1 }
  | finished {machine} : width ≤ 0 →
      Follows zeros before limit width (.finished machine)
        { output := before ++ machine.console.output.toList
          ending := .exit 0 }
  | dumped {machine window} (cells : List UInt8) : 0 < width → zeros width.toNat = .ok window →
      (shownCells (tapeText machine cells)).map (fun number : Nat => (number : Int)) =
        (List.range width.toNat).map (fun address : Nat => machine.tape.cellAt address) →
      Follows zeros before limit width (.finished machine)
        { output := before ++ machine.console.output.toList ++ bytes "\n" ++
            bytes (tapeText machine cells)
          ending := .exit 0 }
  | tooWide {machine} (why : SizeFault) : 0 < width → zeros width.toNat = .error why →
      Follows zeros before limit width (.finished machine)
        { output := before ++ machine.console.output.toList ++ bytes "\n"
          ending := .broken (.noCells (.noArray why)) }

namespace Settings

variable {settings : Settings} {passes width : Int} {limit : Option Int}

theorem programOptions_ofGiven (given : List Given) (passes : Int) :
    (ofGiven given).programOptions passes =
      { passes := if .flag .fixedPoint ∈ given then none else some (max 0 passes)
        strict := .flag .strict ∈ given
        optimize := .flag .noOptimize ∉ given } := by
  have fixedPoint := isSet_ofGiven given .fixedPoint
  have strict := isSet_ofGiven given .strict
  simp only [isSet] at fixedPoint strict
  simp only [programOptions, fixedPoint, strict, optimize_ofGiven, decide_eq_true_eq]

theorem execute_numbered (given : settings.stepLimit = limit.map .number) (fuel : Nat)
    (program : Program) (input : List UInt8) :
    settings.execute fuel program input = some (program.tree.run limit fuel input) := by
  cases limit with
  | none => simp only [execute, given, Option.map_none]
  | some most => simp only [execute, given, Option.map_some]

theorem perform_refused (plain : settings.strip = false)
    (given : settings.passes = .number passes) {file : String} {encoded : ByteArray}
    {cause : ParseError}
    (refused : Program.ofFile (settings.programOptions passes) .utf8 (.ok encoded) =
      .error (.parse cause)) (fuel : Nat) (input : List UInt8) (durations : Durations) :
    settings.perform zeros fuel file (.ok encoded) input durations =
      { errors := cause.message ++ "\n", ending := .exit 1 } := by
  simp only [perform, given, plain, load, refused, refusal, Bool.false_eq_true, if_false]

theorem perform_loaded (plain : settings.strip = false)
    (given : settings.passes = .number passes) (limited : settings.stepLimit = limit.map .number)
    {file : String} {encoded : ByteArray} {program : Program}
    (made : Program.ofFile (settings.programOptions passes) .utf8 (.ok encoded) = .ok program)
    (fuel : Nat) (input : List UInt8) (durations : Durations) :
    settings.perform zeros fuel file (.ok encoded) input durations =
      settings.report zeros program (some (program.tree.run limit fuel input)) durations := by
  simp only [perform, given, plain, load, made, execute_numbered limited, Bool.false_eq_true,
    if_false]

theorem reportLoaded_untimed (untimed : settings.showTimes = false) (program : Program)
    (durations : Durations) :
    settings.reportLoaded program durations =
      { output :=
          if settings.showTree then bytes (program.tree.text (.indented 2) ++ "\n") else [] } := by
  simp only [reportLoaded, untimed, Bool.false_eq_true, if_false]

theorem report_halted (untimed : settings.showTimes = false) (program : Program) (halt : Halt)
    (machine : Machine) (durations : Durations) :
    settings.report zeros program (some (.halted halt machine)) durations =
      { output := (settings.reportLoaded program durations).output ++
          machine.console.output.toList
        errors := halt.message ++ "\n"
        ending := .exit 1 } := by
  simp only [report, reportLoaded_untimed untimed, String.empty_append]

theorem report_finished (untimed : settings.showTimes = false)
    (wide : settings.tapeWidth = .number width) (program : Program) (machine : Machine)
    (durations : Durations) :
    settings.report zeros program (some (.finished machine)) durations =
      let report : Report :=
        { output := (settings.reportLoaded program durations).output ++
            machine.console.output.toList }
      if 0 < width then report.withTape zeros machine width else report := by
  simp only [report, reportFinished, reportLoaded_untimed untimed, untimed, wide,
    Bool.false_eq_true, if_false, String.append_empty]

theorem report_exits (makes : MakesZeros zeros) (untimed : settings.showTimes = false)
    (wide : settings.tapeWidth = .number width)
    (held : 0 < width → ∃ window, zeros width.toNat = .ok window)
    {program : Program} {outcome : Outcome} (keeps : outcome.KeepsBytes) (durations : Durations) :
    ∃ code, (settings.report zeros program (some outcome) durations).ending = .exit code := by
  cases outcome with
  | halted halt machine =>
      rw [report_halted untimed]
      exact ⟨1, rfl⟩
  | finished machine =>
      have holds : machine.tape.HoldsBytes := keeps.bytes
      rw [report_finished untimed wide]
      by_cases positive : 0 < width
      · obtain ⟨window, made⟩ := held positive
        obtain ⟨cells, shown, _⟩ := Report.withTape_cells makes _ holds made
        simp only [if_pos positive]
        rw [shown]
        exact ⟨0, rfl⟩
      · simp only [if_neg positive]
        exact ⟨0, rfl⟩

theorem report_follows (makes : MakesZeros zeros) (untimed : settings.showTimes = false)
    (wide : settings.tapeWidth = .number width) {program : Program}
    (sets : program.tree.SetsBytes) {input : List UInt8} {outcome : Outcome}
    (ends : program.tree.Ends { stepLimit := limit } { console := { input } } outcome)
    (durations : Durations) :
    Report.Follows zeros (settings.reportLoaded program durations).output limit width outcome
      (settings.report zeros program (some outcome) durations) := by
  cases outcome with
  | halted halt machine =>
      rw [report_halted untimed]
      rcases ends.halt_cases sets .blank with ⟨cause, stopped⟩ | ⟨most, steps, given, stopped⟩
      · cases cause with
        | none => cases stopped
        | some cause =>
            cases stopped
            exact .failed
      · cases stopped
        exact .limited given
  | finished machine =>
      rw [report_finished untimed wide]
      have holds : machine.tape.HoldsBytes := by
        obtain ⟨_, fuel, ran⟩ := ends
        have keeps := Node.execute_keepsBytes { stepLimit := limit } fuel sets
          (show ({ console := { input } } : Machine).tape.HoldsBytes from .blank)
        rw [ran] at keeps
        exact keeps.bytes
      by_cases positive : 0 < width
      · simp only [if_pos positive]
        cases made : zeros width.toNat with
        | ok window =>
            obtain ⟨cells, shown, numbers⟩ := Report.withTape_cells makes _ holds made
            rw [shown]
            exact .dumped cells positive made numbers
        | error why =>
            rw [Report.withTape_refused _ machine made]
            exact .tooWide why positive made
      · simp only [if_neg positive]
        exact .finished (Int.not_lt.mp positive)

end Settings

theorem run_eq_perform {arguments : List String} {given : List Given} {directory : Directory}
    {file : String} {contents : Except FileFault ByteArray} (asks : Asks file given arguments)
    (plain : (Settings.ofGiven given).strip = false)
    (opened : directory.read (tidyPath file) = contents) (fuel : Nat) (input : List UInt8)
    (durations : Durations) :
    run zeros fuel arguments directory input durations =
      (Settings.ofGiven given).perform zeros fuel file contents input durations := by
  have asked := readArguments_eq_run_iff.mpr ⟨given, asks, rfl⟩
  simp only [run, asked, Settings.path, plain, opened, Bool.false_eq_true, if_false]

/-- For a file that is text, the report is what the library makes of it with the options that the
arguments ask for: its error, or the program that it gives, shown and run. There always is an exit
code unless no array is made for the cells that are asked for. The command lines that `Asks` is
about are all that are taken (`readArguments_eq_run_iff`). -/
theorem report_follows_program (makes : MakesZeros zeros) {arguments : List String}
    {given : List Given} {directory : Directory} {file : String} {passes width : Int}
    {limit : Option Int} {encoded : ByteArray} {source : String}
    (asks : Asks file given arguments)
    (plain : .flag .strip ∉ given) (untimed : .flag .time ∉ given)
    (counted : (lastAmount? .passes given).getD (.number defaultPasses) = .number passes)
    (limited : lastAmount? .maxSteps given = limit.map .number)
    (wide : (lastAmount? .dumpTape given).getD (.number 0) = .number width)
    (opened : directory.read (tidyPath file) = .ok encoded)
    (decoded : Encoding.utf8.readText? encoded = some source) (input : List UInt8) :
    let options : ProgramOptions :=
      { passes := if .flag .fixedPoint ∈ given then none else some (max 0 passes)
        strict := .flag .strict ∈ given
        optimize := .flag .noOptimize ∉ given }
    ((0 < width → ∃ window, zeros width.toNat = .ok window) →
      ∀ fuel durations, ∃ code,
        (run zeros fuel arguments directory input durations).ending = .exit code) ∧
    (∀ error, Program.ofFile options .utf8 (.ok encoded) = .error error →
      ∃ cause, error = .parse cause ∧ ∀ fuel durations,
        run zeros fuel arguments directory input durations =
          { output := [], errors := cause.message ++ "\n", ending := .exit 1 }) ∧
    ∀ program, Program.ofFile options .utf8 (.ok encoded) = .ok program →
      (.flag .noOptimize ∈ given → program.tree = program.raw ∧ program.passesRun = 0) ∧
      ∀ outcome, program.tree.Ends { stepLimit := limit } { console := { input } } outcome →
        ∃ enough, ∀ fuel, enough ≤ fuel → ∀ durations,
          Report.Follows zeros
            (if .flag .noTree ∈ given then []
              else bytes (program.tree.text (.indented 2) ++ "\n"))
            limit width outcome (run zeros fuel arguments directory input durations) := by
  intro options
  have noStrip := Settings.strip_ofGiven plain
  have noTimes := Settings.showTimes_ofGiven untimed
  have count := (Settings.passes_ofGiven given).trans counted
  have most := (Settings.stepLimit_ofGiven given).trans limited
  have cells := (Settings.tapeWidth_ofGiven given).trans wide
  have mapped : (Settings.ofGiven given).programOptions passes = options :=
    Settings.programOptions_ofGiven given passes
  rcases Program.ofFile_cases options decoded with ⟨cause, refused⟩ | ⟨program, made, sets⟩
  · have refuses (fuel : Nat) (durations : Durations) :
        run zeros fuel arguments directory input durations =
          { output := [], errors := cause.message ++ "\n", ending := .exit 1 } := by
      rw [← mapped] at refused
      rw [run_eq_perform asks noStrip opened]
      exact Settings.perform_refused noStrip count refused fuel input durations
    refine ⟨?_, ?_, ?_⟩
    · intro _ fuel durations
      rw [refuses]
      exact ⟨1, rfl⟩
    · intro error same
      rw [refused] at same
      cases same
      exact ⟨cause, rfl, refuses⟩
    · intro program made
      rw [refused] at made
      cases made
  · have reports (fuel : Nat) (durations : Durations) :
        run zeros fuel arguments directory input durations =
          (Settings.ofGiven given).report zeros program
            (some (program.tree.run limit fuel input)) durations := by
      rw [← mapped] at made
      rw [run_eq_perform asks noStrip opened]
      exact Settings.perform_loaded noStrip count most made fuel input durations
    refine ⟨?_, ?_, ?_⟩
    · intro held fuel durations
      rw [reports]
      exact Settings.report_exits makes noTimes cells held
        (Node.execute_keepsBytes _ fuel sets .blank) durations
    · intro error refused
      rw [made] at refused
      cases refused
    · intro same also
      rw [made] at also
      cases also
      refine ⟨fun absent => ?_, fun outcome ends => ?_⟩
      · exact Program.ofFile_unoptimized (decide_eq_false (not_not_intro absent)) decoded made
      · obtain ⟨enough, ran⟩ := ends.eventually
        refine ⟨enough, fun fuel more durations => ?_⟩
        have follows := Settings.report_follows makes noTimes cells sets ends durations
        rw [Settings.reportLoaded_untimed noTimes, Settings.showTree_ofGiven] at follows
        simp only [decide_eq_true_eq, ite_not] at follows
        rw [reports, Node.run, ran fuel more]
        exact follows

theorem read_only_file (contents : ByteArray) :
    (Directory.mk [("p", contents)]).read (tidyPath "p") = .ok contents := by
  have parts : "p".splitOn "/" = ["p"] := by
    rw [String.splitOn, if_neg (by decide), String.splitOnAux, if_neg (by decide),
      if_neg (by decide), String.splitOnAux, if_pos (by decide)]
    decide
  have tidy : tidyPath "p" = "p" := by
    rw [tidyPath, parts]
    rfl
  rw [tidy, Directory.read, parts]
  rfl

/-- A negative number of passes leaves the tree as it is, and three cells are shown. -/
theorem countdown_report_follows :
    MakesZeros (zerosWithin fun _ => true) ∧
    Asks "p" [.quantity .passes (.number (-3)), .flag .noTree, .quantity .dumpTape (.number 3)]
      ["--passes=-3", "--no-t", "--dump-tape", "3", "p"] ∧
    ∃ machine,
      (.block [.read, .loop (.block [.print, .add 255]), .add 1, .add 1] : Tree).Ends {}
        { console := { input := [2] } } (.finished machine) ∧
      machine.console.output = #[2, 1] ∧ machine.tape.cellAt 0 = 2 ∧
      ∃ enough, ∀ fuel, enough ≤ fuel → ∀ durations,
        Report.Follows (zerosWithin fun _ => true) [] none 3 (.finished machine)
          (run (zerosWithin fun _ => true) fuel ["--passes=-3", "--no-t", "--dump-tape", "3", "p"]
            ⟨[("p", ",[.-]++".toUTF8)]⟩ [2] durations) := by
  have makes := makesZeros_zerosWithin fun _ => true
  have asks : Asks "p"
      [.quantity .passes (.number (-3)), .flag .noTree, .quantity .dumpTape (.number 3)]
      ["--passes=-3", "--no-t", "--dump-tape", "3", "p"] := by
    have passes : Spells "--passes" (.quantity .passes) := .of_listed (by decide)
    have noTree : Spells "--no-t" (.flag .noTree) := .of_candidates rfl
    have dumpTape : Spells "--dump-tape" (.quantity .dumpTape) := .of_listed (by decide)
    have negative : Amount.read? "-3" = some (.number (-3)) := rfl
    have three : IsPlain "3" := isPlain_of_head? (by decide)
    have file : IsPlain "p" := isPlain_of_head? (by decide)
    exact .among (.attached passes negative (.flag noTree (.apart dumpTape three rfl .nil))) file
      .nil
  have decoded : Encoding.utf8.readText? ",[.-]++".toUTF8 = some ",[.-]++" := rfl
  let countdown : Tree := .block [.read, .loop (.block [.print, .add 255]), .add 1, .add 1]
  have finishes : (countdown.execute {} 2 { console := { input := [2] } }).halt? = none := by
    decide +kernel
  have output : (countdown.execute {} 2 { console := { input := [2] } }).machine.console.output =
      #[2, 1] := by
    decide +kernel
  have cell : (countdown.execute {} 2 { console := { input := [2] } }).machine.tape.cellAt 0 =
      2 := by
    decide +kernel
  cases ran : countdown.execute {} 2 { console := { input := [2] } } with
  | halted halt machine =>
      rw [ran] at finishes
      cases finishes
  | finished machine =>
      rw [ran] at output cell
      have ends : countdown.Ends {} { console := { input := [2] } } (.finished machine) :=
        ⟨by simp [Outcome.halt?], 2, ran⟩
      have unlimited : (none : Option Amount) = (none : Option Int).map .number := rfl
      obtain ⟨_, _, follows⟩ := report_follows_program makes asks (by decide) (by decide) rfl
        unlimited rfl (read_only_file _) decoded [2]
      obtain ⟨_, reported⟩ := follows ⟨countdown, countdown, 0⟩ rfl
      exact ⟨makes, asks, machine, ends, output, cell, reported _ ends⟩

/-- A program that finishes, but no array is made for the cells that are asked for; and passes that
are asked for without their number. -/
theorem reports_without_exit :
    (∃ machine, (.block [.add 1, .print] : Tree).Ends {} {} (.finished machine) ∧
      machine.console.output = #[1]) ∧
    (readArguments ["--no-tree", "--dump-tape=9223372036854775808", "p"] =
        .ok (.run "p" { showTree := false, tapeWidth := .number 0x8000000000000000 }) ∧
      ∀ fuel durations,
        run (zerosWithin fun _ => true) fuel ["--no-tree", "--dump-tape=9223372036854775808", "p"]
            ⟨[("p", "+.".toUTF8)]⟩ [] durations =
          { output := [1, 10], errors := "",
            ending := .broken (.noCells (.noArray .beyondIndex)) }) ∧
    readArguments ["--passes=--", "--no-optimize", "p"] =
        .ok (.run "p" { passes := .void, optimize := false }) ∧
      ∀ fuel durations,
        run (zerosWithin fun _ => true) fuel ["--passes=--", "--no-optimize", "p"]
            ⟨[("p", "+.".toUTF8)]⟩ [] durations =
          { output := [], errors := "", ending := .broken (.missingNumber .passes) } := by
  refine ⟨⟨((.block [.add 1, .print] : Tree).execute {} 0 {}).machine, ⟨?_, 0, rfl⟩, ?_⟩,
    ⟨rfl, ?_⟩, rfl, fun fuel durations => rfl⟩
  · simp [Outcome.halt?]
  · decide +kernel
  · intro fuel durations
    have asked : readArguments ["--no-tree", "--dump-tape=9223372036854775808", "p"] =
        .ok (.run "p" { showTree := false, tapeWidth := .number 0x8000000000000000 }) := rfl
    rw [run, asked]
    show Settings.perform _ _ fuel "p" (Directory.read _ (tidyPath "p")) [] durations = _
    rw [read_only_file]
    rfl

end CommandLine

end TapeTree
