import NesConsole.Proofs.Cartridge.TableWiring
import NesConsole.Proofs.Saves.WorkRam

/-! The states to which a host can bring a console, whatever it does and past every refusal. In each
of them the cartridge is whole, and the tables are wired as it prescribes. -/
namespace NesConsole

namespace MainBus

structure Orderly (b : MainBus) : Prop where
  whole : b.Whole
  soldered : b.video.cartridge.header.Soldered
  mirroring : b.video.nameTables.mirroring = b.video.cartridge.mirroring

variable {b : MainBus}

theorem Orderly.inStep (h : b.Orderly) :
    b.InStep b.video.cartridge.header b.video.nameTables.byte :=
  ⟨h.whole, rfl, h.mirroring, fun _ => rfl⟩

theorem InStep.orderly {header : Header} {bytes : TableCell → UInt8} (h : b.InStep header bytes)
    (hsolder : header.Soldered) : b.Orderly :=
  ⟨h.whole, h.header ▸ hsolder, h.mirroring⟩

theorem Orderly.run (h : b.Orderly) (act : BusAct) : (act.run b).Orderly :=
  (h.inStep.run h.soldered act).orderly h.soldered

theorem orderly_wire {image : Array UInt8} {path : Option String} {disk : Disk}
    {cartridge : Cartridge} {events : List CartridgeEvent}
    (h : Cartridge.ofImage image path disk = .ok (cartridge, events)) (journal : Journal) :
    (wire cartridge journal).Orderly := by
  have hheader : cartridge.header = Image.header image :=
    congrArg (fun r => r.1.header) (Image.wellFormed_of_ofImage h).2
  exact ⟨Cartridge.whole_ofImage h, hheader ▸ Image.soldered_header image, rfl⟩

/-- Saving leaves the board and the header. -/
theorem Orderly.persist (h : b.Orderly) {cartridge : Cartridge} {disk disk' : Disk}
    (hpersist : b.video.cartridge.persist disk = .ok cartridge disk') :
    Orderly { b with video := { b.video with cartridge := cartridge } } := by
  obtain ⟨work, rfl⟩ := Cartridge.eq_of_persist hpersist
  exact ⟨h.whole, h.soldered, h.mirroring⟩

theorem orderly_read (address : UInt16) : Keeps Orderly (MainBus.read address) :=
  .of_stateAfter fun _ h => h.run (.read address)

theorem orderly_write (address : UInt16) (data : UInt8) :
    Keeps Orderly (MainBus.write address data) :=
  .of_stateAfter fun _ h => h.run (.write address data)

theorem orderly_stepDot : Keeps Orderly stepDot := .of_stateAfter fun _ h => h.run .dot

theorem orderly_transferObjects (page : UInt8) : Keeps Orderly (transferObjects page) :=
  .of_stateAfter fun _ h => h.run (.transfer page)

instance : BusKeeps Orderly where
  read := orderly_read
  write := orderly_write
  report _ _ h := ⟨h.whole, h.soldered, h.mirroring⟩

theorem orderly_readVideo (address : UInt16) :
    Keeps Orderly (onPicture (Wired.read address)) := by
  intro b h
  obtain ⟨_, hread, rfl⟩ := VideoBus.steady_of_whole h.whole address b.video rfl
  simp only [onPicture, Wired.read, Wired.onBus, hread]
  exact ⟨h.whole, h.soldered, h.mirroring⟩

end MainBus

namespace Console

def Orderly (c : Console) : Prop := c.bus.Orderly

theorem orderly_stepDot : Keeps Orderly stepDot := keeps_stepDot MainBus.orderly_stepDot

theorem orderly_serveTransfer : Keeps Orderly serveTransfer :=
  keeps_serveTransfer (fun _ h => ⟨h.whole, h.soldered, h.mirroring⟩)
    MainBus.orderly_transferObjects

theorem orderly_step : Keeps Orderly step :=
  .bind (goes_onMachine (BusKeeps.clock (P := MainBus.Orderly))) fun _ =>
    .bind orderly_stepDot fun _ => .bind orderly_stepDot fun _ => .bind orderly_stepDot fun _ =>
      orderly_serveTransfer

theorem orderly_stepUntilReady (n : Nat) : Keeps Orderly (stepUntilReady n) := by
  induction n with
  | zero => exact .pure ()
  | succ n ih =>
    intro c h
    rw [stepUntilReady_succ]
    by_cases hready : c.frameReady = true
    · rw [if_pos hready]
      exact h
    · rw [if_neg hready]
      exact Keeps.bind orderly_step (fun _ => ih) c h

theorem orderly_reset : Keeps Orderly reset :=
  keeps_reset (fun _ h => h.run .reset) MainBus.orderly_read fun event b =>
    BusKeeps.report (P := MainBus.Orderly) event b

theorem Orderly.hold {c : Console} (h : c.Orderly) (pad : Nat) (buttons : UInt8) :
    (c.hold pad buttons).Orderly := by
  match pad with
  | 0 | 1 | _ + 2 => exact ⟨h.whole, h.soldered, h.mirroring⟩

theorem orderly_run (op : HostOp) : Keeps Orderly op.run := by
  cases op with
  | reset => exact .bind orderly_reset fun _ => .pure _
  | step => exact .bind orderly_step fun _ => .pure _
  | runFrame =>
    exact .bind (.bind (fun _ h => h) fun _ => orderly_stepUntilReady _) fun _ => .pure _
  | hold pad buttons => exact .bind (fun _ h => h.hold pad buttons) fun _ => .pure _
  | read address => exact .bind (keeps_onBus (MainBus.orderly_read address)) fun _ => .pure _
  | write address data =>
    exact .bind (keeps_onBus (MainBus.orderly_write address data)) fun _ => .pure _
  | readVideo address =>
    exact .bind (keeps_onBus (MainBus.orderly_readVideo address)) fun _ => .pure _
  | stepDot => exact .bind (keeps_onBus MainBus.orderly_stepDot) fun _ => .pure _
  | transferObjects page =>
    exact .bind (keeps_onBus (MainBus.orderly_transferObjects page)) fun _ => .pure _

/-- The states that a host brings a console to around an accepted image. Besides its operations,
refused or not, it takes the note of a completed frame, saves, and reaches the picture unit and the
joypads past the bus, leaving them in any state at all. It writes to the cartridge through the bus
alone, which wires the tables anew each time. -/
inductive Reachable : Console → Prop
  | wire {image : Array UInt8} {path : Option String} {disk : Disk} {cartridge : Cartridge}
      {events : List CartridgeEvent} (journal : Journal)
      (h : Cartridge.ofImage image path disk = .ok (cartridge, events)) :
      Reachable (wire cartridge journal)
  | visit {c : Console} (h : Reachable c) (op : HostOp) : Reachable (Visit.after (op.run c))
  | takeFrameReady {c : Console} (h : Reachable c) : Reachable c.takeFrameReady.2
  | persist {c d : Console} {disk disk' : Disk} (h : Reachable c)
      (hpersist : c.persist disk = .ok d disk') : Reachable d
  | bypass {c : Console} (h : Reachable c) (picture : Ppu) (peripherals : Peripherals) :
      Reachable (c.updateBus fun b => { b with picture := picture, peripherals := peripherals })

theorem Reachable.orderly {c : Console} (h : c.Reachable) : c.Orderly := by
  induction h with
  | wire journal h => exact MainBus.orderly_wire h journal
  | @visit c _ op ih =>
    have hr := orderly_run op c ih
    cases hx : op.run c <;> rw [hx] at hr <;> exact hr
  | takeFrameReady _ ih => exact ih
  | @persist c d disk disk' _ hpersist ih =>
    obtain ⟨cartridge, _, hsaved, hd⟩ := of_bind_ok hpersist
    cases hd
    exact MainBus.Orderly.persist ih hsaved
  | bypass _ picture peripherals ih => exact ⟨ih.whole, ih.soldered, ih.mirroring⟩

end Console
end NesConsole
