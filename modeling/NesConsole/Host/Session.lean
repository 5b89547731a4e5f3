import NesConsole.Console
import NesConsole.Host.CommandLine
/-! A run of the program over a disk: load, reset, run the frames, report, and save. -/
namespace NesConsole

structure Outcome where
  exitCode : UInt8
  log : List Event
  disk : Disk

namespace Session

def outcome (exitCode : UInt8) (journal : Journal) (d : Disk) : Outcome :=
  ⟨exitCode, journal.entries.reverse, d⟩

def finish (exitCode : UInt8) (event : Event) (c : Console) (d : Disk) : Outcome :=
  let c := c.updateBus (·.note [event])
  let (journal, d) := c.close d
  outcome exitCode journal d

def runConsole (request : Request) (c : Console) (d : Disk) : Outcome :=
  match request.frames with
  | none => finish 1 .noDisplay c d
  | some frames =>
    let act : EStateM ConsoleError Console Unit := do
      Console.reset
      Console.runFrames frames
    match act c with
    | .ok _ c => finish 0 (.finished frames c.cpu.cycles) c d
    | .error e c => finish 1 (.stopped e) c d

def run (request : Request) (d : Disk) : Outcome :=
  let journal : Journal := { detail := request.detail }
  match Cartridge.load request.image d with
  | .error e => outcome 1 (journal.note (.loadFailed request.image (.load e))) d
  | .ok (cartridge, events) =>
    runConsole request (.wire cartridge (journal.noteAll (events.map .cartridge))) d

end Session

def Level.tag : Level → String
  | .error => "\x1b[1;31mERROR\x1b[0m"
  | .warn => "\x1b[1;33mWARN \x1b[0m"
  | .info => "\x1b[1;32mINFO \x1b[0m"
  | .debug => "\x1b[34mDEBUG\x1b[0m"
  | .trace => "\x1b[2mTRACE\x1b[0m"

def Event.line (e : Event) : String := s!"{e.level.tag} \x1b[36m{e.target}\x1b[0m {e.message}"

end NesConsole
