import NesConsole.Journal
/-! The command line: one image file, and options in long and short form. Arguments are judged
from left to right, and the first that is wrong, or that asks for help, decides. -/
namespace NesConsole

structure Request where
  /-- The image file. -/
  image : String
  /-- Size of the window against the picture. -/
  scale : Nat := 2
  /-- The lowest level that is logged; without one nothing is. -/
  detail : Option Level := some .info
  /-- How many frames to run without a window. -/
  frames : Option Nat := none
  deriving DecidableEq, Repr, Inhabited

inductive Command where
  | run (request : Request)
  | help
  | version
  deriving DecidableEq, Repr, Inhabited

inductive UsageError where
  | unknownOption (text : String)
  | unexpectedValue (name : String)
  | missingValue (name : String)
  | repeated (name : String)
  | badValue (name value : String)
  | extraArgument (text : String)
  | missingImage
  deriving DecidableEq, Repr, Inhabited

def UsageError.message : UsageError → String
  | .unknownOption text => s!"unexpected argument {text}"
  | .unexpectedValue name => s!"--{name} takes no value"
  | .missingValue name => s!"--{name} needs a value"
  | .repeated name => s!"--{name} is given more than once"
  | .badValue name value => s!"invalid value {value} for {name}"
  | .extraArgument text => s!"unexpected argument {text}"
  | .missingImage => "an image file is required"

inductive ValueOption where
  | scale
  | logLevel
  | frames
  deriving DecidableEq, Repr, Inhabited

namespace ValueOption

def name : ValueOption → String
  | .scale => "scale"
  | .logLevel => "log-level"
  | .frames => "frames"

end ValueOption

inductive OptionName where
  | value (option : ValueOption)
  | help
  | version
  deriving DecidableEq, Repr, Inhabited

namespace OptionName

def ofLong? : String → Option OptionName
  | "scale" => some (.value .scale)
  | "log-level" => some (.value .logLevel)
  | "frames" => some (.value .frames)
  | "help" => some .help
  | "version" => some .version
  | _ => none

def ofShort? : Char → Option OptionName
  | 's' => some (.value .scale)
  | 'l' => some (.value .logLevel)
  | 'f' => some (.value .frames)
  | 'h' => some .help
  | 'V' => some .version
  | _ => none

end OptionName

structure Given where
  image : Option String := none
  scale : Option Nat := none
  detail : Option (Option Level) := none
  frames : Option Nat := none
  deriving DecidableEq, Repr, Inhabited

namespace CommandLine

def scaleOf? : String → Option Nat
  | "1" => some 1
  | "2" => some 2
  | "4" => some 4
  | "8" => some 8
  | _ => none

def detailOf? : String → Option (Option Level)
  | "off" => some none
  | "error" => some (some .error)
  | "warn" => some (some .warn)
  | "info" => some (some .info)
  | "debug" => some (some .debug)
  | "trace" => some (some .trace)
  | _ => none

def decimal? (digits : List Char) : Option Nat :=
  if digits.isEmpty then none
  else digits.foldlM (fun n c => if c.isDigit then some (n * 10 + (c.toNat - 48)) else none) 0

/-- A count below 2^64 in decimal, which may carry a plus sign. -/
def countOf? (text : String) : Option Nat :=
  let digits := match text.toList with
    | '+' :: digits => digits
    | digits => digits
  (decimal? digits).filter fun n => decide (n < 0x10000000000000000)

def setOption (option : ValueOption) (text : String) (g : Given) : Except UsageError Given :=
  let bad := UsageError.badValue option.name text
  let twice := UsageError.repeated option.name
  match option with
  | .scale =>
    if g.scale.isSome then .error twice
    else match scaleOf? text with
      | some n => .ok { g with scale := some n }
      | none => .error bad
  | .logLevel =>
    if g.detail.isSome then .error twice
    else match detailOf? text with
      | some d => .ok { g with detail := some d }
      | none => .error bad
  | .frames =>
    if g.frames.isSome then .error twice
    else match countOf? text with
      | some n => .ok { g with frames := some n }
      | none => .error bad

def setImage (text : String) (g : Given) : Except UsageError Given :=
  if g.image.isSome then .error (.extraArgument text)
  else if text = "" then .error (.badValue "the image file" text)
  else .ok { g with image := some text }

inductive Argument where
  /-- The end of the options. -/
  | endOfOptions
  | long (name : String) (value : Option String)
  | short (letters : List Char)
  | plain (text : String)
  deriving DecidableEq, Repr, Inhabited

/-- A lone dash is a plain argument. -/
def Argument.ofText (arg : String) : Argument :=
  match arg.toList with
  | ['-', '-'] => .endOfOptions
  | '-' :: '-' :: rest =>
    let name := rest.takeWhile (· != '=')
    match rest.dropWhile (· != '=') with
    | [] => .long (String.ofList name) none
    | _ :: value => .long (String.ofList name) (some (String.ofList value))
  | '-' :: c :: rest => .short (c :: rest)
  | _ => .plain arg

inductive Progress where
  | decided (command : Command)
  | awaiting (option : ValueOption) (given : Given)
  | taken (given : Given)
  deriving DecidableEq, Repr, Inhabited

def takeShort (g : Given) : List Char → Except UsageError Progress
  | [] => .ok (.taken g)
  | c :: rest =>
    match OptionName.ofShort? c with
    | none => .error (.unknownOption (String.ofList ['-', c]))
    | some .help => .ok (.decided .help)
    | some .version => .ok (.decided .version)
    | some (.value option) =>
      match rest with
      | [] => .ok (.awaiting option g)
      | '=' :: value => (setOption option (String.ofList value) g).map .taken
      | value => (setOption option (String.ofList value) g).map .taken

def takeLong (g : Given) (name : String) (value : Option String) : Except UsageError Progress :=
  match OptionName.ofLong? name, value with
  | none, _ => .error (.unknownOption ("--" ++ name))
  | some (.value option), some value => (setOption option value g).map .taken
  | some (.value option), none => .ok (.awaiting option g)
  | some .help, none => .ok (.decided .help)
  | some .version, none => .ok (.decided .version)
  | some _, some _ => .error (.unexpectedValue name)

def takePlain (g : Given) (args : List String) : Except UsageError Given :=
  args.foldlM (fun g arg => setImage arg g) g

def finish (g : Given) : Except UsageError Command :=
  match g.image with
  | none => .error .missingImage
  | some image => .ok (.run
      { image := image, scale := g.scale.getD 2, detail := g.detail.getD (some .info)
        frames := g.frames })

def readFrom (g : Given) (pending : Option ValueOption) :
    List String → Except UsageError Command
  | [] =>
    match pending with
    | some option => .error (.missingValue option.name)
    | none => finish g
  | arg :: rest =>
    match pending, Argument.ofText arg with
    | some option, .plain text => do readFrom (← setOption option text g) none rest
    | some option, _ => .error (.missingValue option.name)
    | none, .plain text => do readFrom (← setImage text g) none rest
    | none, .endOfOptions => do finish (← takePlain g rest)
    | none, .long name value => do
      match ← takeLong g name value with
      | .decided command => return command
      | .awaiting option g => readFrom g (some option) rest
      | .taken g => readFrom g none rest
    | none, .short letters => do
      match ← takeShort g letters with
      | .decided command => return command
      | .awaiting option g => readFrom g (some option) rest
      | .taken g => readFrom g none rest

def parse (args : List String) : Except UsageError Command := readFrom {} none args

end CommandLine
end NesConsole
