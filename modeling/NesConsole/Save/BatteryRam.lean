import NesConsole.Memory.Ram
import NesConsole.Save.Disk
/-! RAM that a battery keeps: restored from a save file beside the image, and written back when it
changed. A save is written under a temporary name and then renamed, so the save file is whole at
every moment. -/
namespace NesConsole

inductive SaveEvent where
  | restored (path : String)
  | wrongSize (path : String) (expected found : Nat)
  | unreadable (path : String) (error : DiskError)
  | unwritable (path : String) (error : DiskError)
  deriving DecidableEq, Repr

structure BatteryRam (size : Nat) where
  ram : Ram size
  /-- The save file. -/
  path : String
  /-- Whether a byte was written since the save file was last in step. -/
  dirty : Bool := false

def savePath (image : String) : String := image ++ ".sav"

namespace BatteryRam
variable {size : Nat}

def temporaryPath (b : BatteryRam size) : String := b.path ++ ".tmp"

def restore (blank : Ram size) (image : String) (d : Disk) : BatteryRam size × List SaveEvent :=
  let path := savePath image
  match d.read path with
  | .ok bytes =>
    if h : bytes.size = size then
      ({ ram := { blank with cells := ⟨bytes, h⟩ }, path := path }, [.restored path])
    else ({ ram := blank, path := path }, [.wrongSize path size bytes.size])
  | .error .notFound => ({ ram := blank, path := path }, [])
  | .error e => ({ ram := blank, path := path }, [.unreadable path e])

def read (b : BatteryRam size) (offset : Nat) : UInt8 := b.ram.read offset

def write (offset : Nat) (data : UInt8) (b : BatteryRam size) : BatteryRam size :=
  { b with ram := b.ram.write offset data, dirty := true }

def persist (b : BatteryRam size) : EStateM DiskError Disk (BatteryRam size) := do
  if b.dirty then
    Disk.write b.temporaryPath b.ram.cells.toArray
    Disk.rename b.temporaryPath b.path
  return { b with dirty := false }

def close (b : BatteryRam size) (d : Disk) : Disk × List SaveEvent :=
  match b.persist d with
  | .ok _ d => (d, [])
  | .error e d => (d, [.unwritable b.path e])

end BatteryRam
end NesConsole
