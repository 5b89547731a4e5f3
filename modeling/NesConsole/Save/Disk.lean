/-! A disk as a map from locations to files and directories. A rename happens at once or not at
all. The disk can be told what will go wrong with the writes and renames to come. -/
namespace NesConsole

inductive DiskError where
  | notFound
  | notDirectory
  | isDirectory
  | nameTooLong
  /-- Any other refusal of the host, in its own words. -/
  | other (text : String)
  deriving DecidableEq, Repr, Inhabited

/-- The text in which a host of the Unix family puts the error. -/
def DiskError.message : DiskError → String
  | .notFound => "No such file or directory (os error 2)"
  | .notDirectory => "Not a directory (os error 20)"
  | .isDirectory => "Is a directory (os error 21)"
  | .nameTooLong => "File name too long (os error 36)"
  | .other text => text

inductive Node where
  | file (bytes : Array UInt8)
  | directory
  /-- A file that the host refuses to open. -/
  | closed (error : DiskError)
  deriving DecidableEq, Inhabited

/-- The names from the working directory down. The directories above it have a name `..` for each
step up, and a location below the root begins with `/`. -/
abbrev Location := List String

namespace Location

/-- Directories that are always there: the working directory, those above it, and the root. -/
def isBase (l : Location) : Bool := l == ["/"] || l.all (· == "..")

def parent (l : Location) : Location :=
  if l = ["/"] then l else if l.isBase then ".." :: l else l.dropLast

def child (l : Location) (name : String) : Location :=
  if name = "." then l else if name = ".." then l.parent else l ++ [name]

def nameLimit : Nat := 255
def pathLimit : Nat := 4095

end Location

structure Mishap where
  error : DiskError
  leftover : Option (Array UInt8) := none
  deriving DecidableEq, Inhabited

structure Disk where
  /-- One node a location, apart from the directories that are always there. -/
  nodes : List (Location × Node) := []
  /-- What befalls the writes and renames to come, first the next one. -/
  mishaps : List (Option Mishap) := []
  deriving DecidableEq, Inhabited

namespace Disk

def get? (l : Location) (d : Disk) : Option Node :=
  if l.isBase then some .directory else d.nodes.lookup l

def erase (l : Location) (d : Disk) : Disk :=
  { d with nodes := d.nodes.filter fun e => e.1 != l }

def put (l : Location) (n : Node) (d : Disk) : Disk :=
  { d with nodes := (l, n) :: (d.erase l).nodes }

def names (path : String) : List String :=
  let chars := path.toList
  let parts := (chars.splitOn '/').map String.ofList
  let inner := parts.filter (· != "")
  let inner := if parts.getLast? = some "" then inner ++ ["."] else inner
  if chars.head? = some '/' then "/" :: inner else inner

/-- Follows names down from `l`. The last one need not exist. -/
def follow (d : Disk) (l : Location) : List String → Except DiskError Location
  | [] => .ok l
  | name :: rest =>
    match d.get? l with
    | none => .error .notFound
    | some .directory =>
      if Location.nameLimit < name.utf8ByteSize then .error .nameTooLong
      else d.follow (l.child name) rest
    | some _ => .error .notDirectory

def locate (d : Disk) (path : String) : Except DiskError Location :=
  if '\x00' ∈ path.toList then .error (.other "file name contained an unexpected NUL byte")
  else if path = "" then .error .notFound
  else if Location.pathLimit < path.utf8ByteSize then .error .nameTooLong
  else d.follow [] (names path)

def read (path : String) (d : Disk) : Except DiskError (Array UInt8) := do
  match d.get? (← d.locate path) with
  | none => throw .notFound
  | some .directory => throw .isDirectory
  | some (.closed e) => throw e
  | some (.file bytes) => return bytes

def plant (path : String) (n : Node) (d : Disk) : Disk :=
  go [] (names path) d
where
  go (l : Location) : List String → Disk → Disk
    | [], d => d.put l n
    | name :: rest, d =>
      let d := if l.isBase then d else d.put l .directory
      go (l.child name) rest d

def nextMishap : EStateM DiskError Disk (Option Mishap) := do
  let d ← get
  set { d with mishaps := d.mishaps.tail }
  return d.mishaps.head?.join

def write (path : String) (bytes : Array UInt8) : EStateM DiskError Disk Unit := do
  let mishap ← nextMishap
  let d ← get
  match d.locate path with
  | .error e => throw e
  | .ok l =>
    match d.get? l with
    | some .directory => throw .isDirectory
    | some (.closed e) => throw e
    | _ => pure ()
    match mishap with
    | none => set (d.put l (.file bytes))
    | some m =>
      match m.leftover with
      | some junk => set (d.put l (.file junk))
      | none => pure ()
      throw m.error

def rename (source target : String) : EStateM DiskError Disk Unit := do
  let mishap ← nextMishap
  match mishap with
  | some m => throw m.error
  | none =>
    let d ← get
    match d.locate source, d.locate target with
    | .error e, _ => throw e
    | _, .error e => throw e
    | .ok l, .ok l' =>
      match d.get? l with
      | none => throw .notFound
      | some n =>
        if d.get? l' = some .directory then throw .isDirectory
        set ((d.erase l).put l' n)

def remove (path : String) (d : Disk) : Bool × Disk :=
  match d.locate path with
  | .error _ => (false, d)
  | .ok l =>
    match d.get? l with
    | some (.file _) => (true, d.erase l)
    | _ => (false, d)

end Disk
end NesConsole
