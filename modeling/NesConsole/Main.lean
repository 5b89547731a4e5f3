import NesConsole.Host.Session
/-! The program: arguments in, log on the error stream, save file on the disk of the host. -/
namespace NesConsole

def diskErrorOf : IO.Error → DiskError
  | .noFileOrDirectory .. => .notFound
  | .inappropriateType _ 20 _ => .notDirectory
  | .inappropriateType _ 21 _ => .isDirectory
  | .invalidArgument _ 36 _ => .nameTooLong
  | error => .other (toString error)

def nodeAt (path : String) : IO Node := do
  try
    return .file (← IO.FS.readBinFile path).data
  catch error =>
    match diskErrorOf error with
    | .isDirectory => return .directory
    | error => return .closed error

def takeOver (d : Disk) (path : String) : IO Disk := do
  match ← nodeAt path with
  | .closed .notFound => return d
  | node => return d.plant path node

def changed? (before after : Disk) (path : String) : Option ByteArray :=
  match before.read path, after.read path with
  | .ok old, .ok new => if old = new then none else some ⟨new⟩
  | .error _, .ok new => some ⟨new⟩
  | _, .error _ => none

def bringUp (before after : Disk) (save temporary : String) : IO Unit := do
  match changed? before after save with
  | some bytes =>
    IO.FS.writeBinFile temporary bytes
    IO.FS.rename temporary save
  | none =>
    match changed? before after temporary with
    | some bytes => IO.FS.writeBinFile temporary bytes
    | none => return

def runRequest (request : Request) : IO UInt32 := do
  let save := savePath request.image
  let temporary := save ++ ".tmp"
  let disk ← [request.image, save, temporary].foldlM takeOver {}
  let outcome := Session.run request disk
  for event in outcome.log do
    IO.eprintln event.line
  try
    bringUp disk outcome.disk save temporary
  catch error =>
    IO.eprintln (Event.cartridge (.save (.unwritable save (diskErrorOf error)))).line
  return outcome.exitCode.toUInt32

def usage : String :=
  "usage: nesconsole [--scale N] [--log-level LEVEL] [--frames N] path/to/game.nes"

def runCommand (args : List String) : IO UInt32 := do
  match CommandLine.parse args with
  | .error error =>
    IO.eprintln s!"error: {error.message}"
    IO.eprintln usage
    return 2
  | .ok .help =>
    IO.println usage
    return 0
  | .ok .version =>
    IO.println "nesconsole 0.1.0"
    return 0
  | .ok (.run request) => runRequest request

end NesConsole

def main (args : List String) : IO UInt32 := NesConsole.runCommand args
