import TapeTree.Optimize.Passes
import TapeTree.Text.Numeral
import TapeTree.Text.Quoted

/-! The arguments of the command line. Options may be shortened as long as they stay unique, and
may stand before or after the file. A lone double dash ends the options. -/

namespace TapeTree.CommandLine

inductive Flag where
  | fixedPoint
  | noOptimize
  | strict
  | noTree
  | time
  | strip
deriving DecidableEq

inductive Quantity where
  | passes
  | maxSteps
  | dumpTape
deriving DecidableEq

inductive Switch where
  | help
  | flag (flag : Flag)
  | quantity (quantity : Quantity)
deriving DecidableEq

namespace Switch

def title : Switch → String
  | help => "-h/--help"
  | quantity .passes => "--passes"
  | flag .fixedPoint => "--fixed-point"
  | flag .noOptimize => "--no-optimize"
  | flag .strict => "--strict"
  | flag .noTree => "--no-tree"
  | quantity .maxSteps => "--max-steps"
  | quantity .dumpTape => "--dump-tape"
  | flag .time => "--time"
  | flag .strip => "--strip"

def spellings : List (String × Switch) :=
  ("--help", help) ::
    [quantity .passes, flag .fixedPoint, flag .noOptimize, flag .strict, flag .noTree,
      quantity .maxSteps, quantity .dumpTape, flag .time, flag .strip].map
        fun switch => (switch.title, switch)

def spelled? (spelling : String) : Option Switch :=
  (spellings.find? fun entry => entry.1 = spelling).map Prod.snd

def candidates (start : List Char) : List (String × Switch) :=
  spellings.filter fun entry => start.isPrefixOf entry.1.toList

end Switch

inductive Word where
  | plain (text : String)
  | option (switch : Switch) (value : Option String)
  | unknown (text : String)
  | separator

inductive UsageError where
  | ambiguous (given : String) (candidates : List String)
  | badNumber (quantity : Quantity) (value : String)
  | missingValue (quantity : Quantity)
  | needlessValue (switch : Switch) (value : String)
  | missingFile
  | unrecognized (arguments : List String)

def UsageError.summary : UsageError → String
  | .ambiguous given candidates =>
      "ambiguous option: " ++ given ++ " could match " ++ ", ".intercalate candidates
  | .badNumber quantity value =>
      "argument " ++ (Switch.quantity quantity).title ++ ": invalid int value: " ++ Text.quoted value
  | .missingValue quantity =>
      "argument " ++ (Switch.quantity quantity).title ++ ": expected one argument"
  | .needlessValue switch value =>
      "argument " ++ switch.title ++ ": ignored explicit argument " ++ Text.quoted value
  | .missingFile => "the following arguments are required: file"
  | .unrecognized arguments => "unrecognized arguments: " ++ " ".intercalate arguments

def UsageError.message (error : UsageError) : String :=
  "bftree: error: " ++ error.summary

namespace Word

def splitValue (chars : List Char) : List Char × Option String :=
  match chars.dropWhile (· ≠ '=') with
  | [] => (chars, none)
  | _ :: value => (chars.takeWhile (· ≠ '='), some (String.ofList value))

def isDigits (chars : List Char) : Bool :=
  chars.all fun char => (Text.digit? char).isSome

/-- A minus sign and digits, with or without a point, at most a line end after them: such an
argument is a value and not an option. -/
def looksNegative : List Char → Bool
  | '-' :: rest =>
      let body := if rest.getLast? = some '\n' then rest.dropLast else rest
      let whole := body.takeWhile (· ≠ '.')
      match body.dropWhile (· ≠ '.') with
      | [] => !whole.isEmpty && isDigits whole
      | _ :: fraction => isDigits whole && !fraction.isEmpty && isDigits fraction
  | _ => false

def ofUnspelled (argument : String) : Word :=
  if looksNegative argument.toList || argument.toList.contains ' ' then .plain argument
  else .unknown argument

/-- What follows `-h` in one argument counts as a value from the first character on that does not
repeat the request for help. An equals sign may stand before it, and with nothing after it the
value is empty. -/
def shortHelp (tail : List Char) : Word :=
  let repeated (chars : List Char) : Word :=
    match chars.dropWhile (· = 'h') with
    | [] => .option .help none
    | value => .option .help (some (String.ofList value))
  match tail with
  | ['='] => .option .help (some "")
  | '=' :: value => repeated value
  | _ => repeated tail

def ofLong (argument : String) : Except UsageError Word :=
  let (start, value) := splitValue argument.toList
  match Switch.spelled? (String.ofList start), Switch.candidates start with
  | some switch, _ => .ok (.option switch value)
  | none, [] => .ok (ofUnspelled argument)
  | none, [(_, switch)] => .ok (.option switch value)
  | none, several => .error (.ambiguous argument (several.map Prod.fst))

def ofArgument (argument : String) : Except UsageError Word :=
  match argument.toList with
  | '-' :: '-' :: _ => ofLong argument
  | '-' :: 'h' :: tail => .ok (shortHelp tail)
  | '-' :: _ :: _ => .ok (ofUnspelled argument)
  | _ => .ok (.plain argument)

def ofArguments : List String → Except UsageError (List Word)
  | [] => .ok []
  | argument :: rest =>
      if argument = "--" then .ok (.separator :: rest.map .plain)
      else
        match ofArgument argument with
        | .error error => .error error
        | .ok word => (ofArguments rest).map (word :: ·)

end Word

/-- The number that an option is given. A double dash attached to the option leaves it without
one, which only matters where the number is needed. -/
inductive Amount where
  | number (value : Int)
  | void
deriving DecidableEq

def Amount.read? (text : String) : Option Amount :=
  if text = "--" then some void else (Text.readInt? text).map number

structure Settings where
  passes : Amount := .number defaultPasses
  fixedPoint : Bool := false
  optimize : Bool := true
  strict : Bool := false
  showTree : Bool := true
  stepLimit : Option Amount := none
  tapeWidth : Amount := .number 0
  showTimes : Bool := false
  strip : Bool := false

inductive Invocation where
  | help
  | run (file : String) (settings : Settings)

/-- What the words read so far say: the settings, the file, and words that have no place, the last
one first. -/
structure Progress where
  settings : Settings := {}
  file : Option String := none
  extra : List String := []

namespace Settings

def setQuantity (settings : Settings) (value : Amount) : Quantity → Settings
  | .passes => { settings with passes := value }
  | .maxSteps => { settings with stepLimit := some value }
  | .dumpTape => { settings with tapeWidth := value }

def setFlag (settings : Settings) : Flag → Settings
  | .fixedPoint => { settings with fixedPoint := true }
  | .noOptimize => { settings with optimize := false }
  | .strict => { settings with strict := true }
  | .noTree => { settings with showTree := false }
  | .time => { settings with showTimes := true }
  | .strip => { settings with strip := true }

end Settings

namespace Progress

def addExtra (progress : Progress) (text : String) : Progress :=
  { progress with extra := text :: progress.extra }

def addPlain (progress : Progress) (text : String) : Progress :=
  match progress.file with
  | none => { progress with file := some text }
  | some _ => progress.addExtra text

def setFlag (progress : Progress) (flag : Flag) : Progress :=
  { progress with settings := progress.settings.setFlag flag }

def setQuantity (progress : Progress) (quantity : Quantity) (value : String) :
    Except UsageError Progress :=
  match Amount.read? value with
  | some amount =>
      .ok { progress with settings := progress.settings.setQuantity amount quantity }
  | none => .error (.badNumber quantity value)

def finish (progress : Progress) : Except UsageError Invocation :=
  match progress.file with
  | none => .error .missingFile
  | some file =>
      if progress.extra.isEmpty then .ok (.run file progress.settings)
      else .error (.unrecognized progress.extra.reverse)

/-- A double dash before the file or directly after it goes with it. -/
def addSeparator (progress : Progress) (besideFile : Bool) : Progress :=
  if besideFile then progress else progress.addExtra "--"

/-- Reads words in order. The first error wins, and a request for help ends the reading. -/
def read (progress : Progress) : List Word → Except UsageError Invocation
  | [] => progress.finish
  | .unknown text :: rest => (progress.addExtra text).read rest
  | .plain text :: .separator :: rest =>
      ((progress.addPlain text).addSeparator progress.file.isNone).read rest
  | .plain text :: rest => (progress.addPlain text).read rest
  | .separator :: rest => (progress.addSeparator progress.file.isNone).read rest
  | .option .help none :: _ => .ok .help
  | .option (.flag flag) none :: rest => (progress.setFlag flag).read rest
  | .option (.quantity quantity) (some value) :: rest =>
      match progress.setQuantity quantity value with
      | .ok after => after.read rest
      | .error error => .error error
  | .option (.quantity quantity) none :: .plain value :: rest =>
      match progress.setQuantity quantity value with
      | .ok after => after.read rest
      | .error error => .error error
  | .option (.quantity quantity) none :: _ => .error (.missingValue quantity)
  | .option switch (some value) :: _ => .error (.needlessValue switch value)

end Progress

def readArguments (arguments : List String) : Except UsageError Invocation :=
  match Word.ofArguments arguments with
  | .ok words => ({} : Progress).read words
  | .error error => .error error

end TapeTree.CommandLine
