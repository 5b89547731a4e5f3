import NesConsole.FlatMemory
import NesConsole.Main
import NesConsole.Proofs.BusAgreement
import NesConsole.Proofs.Picture.Timing
import NesConsole.Proofs.SerialWrites
import NesConsole.Proofs.Watch
import NesConsole.Proofs.StepRule
import NesConsole.Proofs.NmiEdges
import NesConsole.Proofs.FrameClock
import NesConsole.Proofs.Picture.OverMemory
import NesConsole.Proofs.Picture.TileMap
import NesConsole.Proofs.Picture.Frame
import NesConsole.Proofs.Picture.Screen
import NesConsole.Proofs.IdleLoop
import NesConsole.Proofs.AccessTrace
import NesConsole.Proofs.Safety.HostRun
import NesConsole.Proofs.Logging.Sessions
import NesConsole.Proofs.Picture.StatusHistory
import NesConsole.Proofs.Picture.Painting
import NesConsole.Proofs.Joypads
import NesConsole.Proofs.Faults.Clock
import NesConsole.Proofs.Faults.Transfers
import NesConsole.Proofs.Faults.Jams
import NesConsole.Proofs.Faults.Finality
import NesConsole.Proofs.Picture.Cadence
import NesConsole.Proofs.Cartridge.Acceptance
import NesConsole.Proofs.Cartridge.Banks
import NesConsole.Proofs.Cartridge.TableWiring
import NesConsole.Proofs.Saves.Histories
import NesConsole.Proofs.Processor.StackFrames
import NesConsole.Proofs.Processor.Turns
import NesConsole.Proofs.Processor.Costs
import NesConsole.Proofs.Processor.CycleLedger
import NesConsole.Proofs.Processor.FarWrites
import NesConsole.Proofs.Processor.StatusBits
import NesConsole.Proofs.Processor.RegisterFrames
import NesConsole.Proofs.Transfers.Alignment
import NesConsole.Proofs.Saves.Reload
import NesConsole.Proofs.Memory.Regions
import NesConsole.Proofs.Memory.Aliases
import NesConsole.Proofs.Memory.Ownership
import NesConsole.Proofs.Picture.Uploads
import NesConsole.Proofs.Reset.Redraw
import NesConsole.Proofs.Reset.Matching
import NesConsole.Proofs.Reset.Reachable
import NesConsole.Proofs.Reset.Forgetting
import NesConsole.Proofs.Processor.Combinations
import NesConsole.Proofs.Processor.Lengths
import NesConsole.Proofs.Picture.SpriteEvaluation
import NesConsole.Proofs.Transfers.PageCopy
import NesConsole.Proofs.Transfers.Delivery
import NesConsole.Proofs.Processor.DecimalFlag
import NesConsole.Proofs.Picture.Bounds
