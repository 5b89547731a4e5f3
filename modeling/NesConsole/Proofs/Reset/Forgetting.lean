import Mathlib.Data.List.Forall2
import NesConsole.Proofs.Reset.Matching
import NesConsole.Proofs.Reset.Reachable

/-! A reset forgets everything but memory. Two consoles that have the same stored, wherever each
stands in an instruction and in a frame and whatever it has yet to serve, are alike once both are
reset, and stay so request after request, as long as the cycles of both can be counted. -/
namespace NesConsole

theorem Alike.after {R : Console → Console → Prop} {r r' : Visit} (h : Alike R r r') :
    R r.after r'.after := by
  cases r <;> cases r'
  case ok.ok => exact h.2
  case error.error => exact h.2
  all_goals exact h.elim

namespace Console

def tally (c : Console) : Tally := ⟨c.cpu.cycles, c.picture.frames⟩

/-- The same in every memory, in the cartridge and in the joypads, with cycle counts of one parity.
Whether instructions are reported is set for all consoles at once. -/
structure SameMemory (c d : Console) : Prop where
  ram : d.bus.ram = c.bus.ram
  palette : d.bus.video.palette = c.bus.video.palette
  nameTables : d.bus.video.nameTables.cells = c.bus.video.nameTables.cells
  objects : d.picture.oam = c.picture.oam
  cartridge : d.cartridge = c.cartridge
  firstPad : d.bus.peripherals.first = c.bus.peripherals.first
  secondPad : d.bus.peripherals.second = c.bus.peripherals.second
  parity : d.cpu.cycles % 2 = c.cpu.cycles % 2
  tracing : d.journal.keeps .trace = c.journal.keeps .trace

/-- Two consoles alike since resets that found `s` and `t` counted. They differ in the reports made,
in the counts, which are as far apart as they were, and in those entries of the picture that the
beam, three dots a cycle, has not passed since. -/
structure Resembles (s t : Tally) (c d : Console) : Prop where
  cpu : d.cpu = c.cpu.recount d.cpu.cycles
  cycles : c.cpu.cycles + t.cycles = d.cpu.cycles + s.cycles
  ram : d.bus.ram = c.bus.ram
  peripherals : d.bus.peripherals = c.bus.peripherals
  video : d.bus.video = c.bus.video.withJournal d.journal
  picture : d.picture = c.picture.remount d.picture.frames d.picture.picture
  frames : c.picture.frames + t.frames = d.picture.frames + s.frames
  drawn : ∀ i, Ppu.entryPlace i < 3 * (c.cpu.cycles - s.cycles) →
    d.picture.picture.get i = c.picture.picture.get i
  frameReady : d.frameReady = c.frameReady

variable {c d : Console}

/-! ### The resets -/

/-- The tables are wired alike too, since in both consoles the cartridge prescribes how. -/
theorem SameMemory.matches_reset (h : c.SameMemory d) (hc : c.Orderly) (hd : d.Orderly) :
    MainBus.Matches c.picture.frames d.picture.frames 0 c.bus.reset d.bus.reset := by
  have hmirroring : d.bus.video.nameTables.mirroring = c.bus.video.nameTables.mirroring := by
    rw [hc.mirroring, hd.mirroring]
    exact congrArg Cartridge.mirroring h.cartridge
  have htables : d.bus.video.nameTables = c.bus.video.nameTables := by
    rw [NameTables.mk.injEq]
    exact ⟨h.nameTables, hmirroring⟩
  have hvideo : d.bus.video = c.bus.video.withJournal d.journal := by
    rw [VideoBus.mk.injEq]
    exact ⟨h.cartridge, htables, h.palette, rfl⟩
  refine ⟨h.ram, ?_, ⟨⟨d.journal, hvideo, h.tracing⟩, hc.whole⟩,
    Ppu.redrawn_reset h.objects.symm⟩
  rw [Peripherals.mk.injEq]
  exact ⟨h.firstPad, h.secondPad, rfl⟩

/-- Neither reset is refused. -/
theorem SameMemory.exists_reset (h : c.SameMemory d) (hc : c.Orderly) (hd : d.Orderly) :
    ∃ c' d', reset c = .ok () c' ∧ reset d = .ok () d' ∧ Matched c.tally d.tally c' d' := by
  obtain ⟨low, hlow⟩ := Cartridge.exists_read hc.whole resetVector
  obtain ⟨high, hhigh⟩ := Cartridge.exists_read hc.whole (resetVector + 1)
  have hlow : c.cartridge.read? resetVector = some (lowByte (wordOf low high)) := by
    rw [lowByte_wordOf]
    exact hlow
  have hhigh : c.cartridge.read? (resetVector + 1) = some (highByte (wordOf low high)) := by
    rw [highByte_wordOf]
    exact hhigh
  refine ⟨_, _, reset_eq hlow hhigh, reset_eq (h.cartridge ▸ hlow) (h.cartridge ▸ hhigh), 0, ?_⟩
  exact ⟨⟨⟨rfl, (h.matches_reset hc hd).note _ _⟩, rfl⟩, rfl⟩

/-! ### The requests that follow -/

theorem Matched.resembles {s t : Tally} (h : Matched s t c d) : Resembles s t c d := by
  obtain ⟨m, ⟨⟨hchip, hbus⟩, hcycles⟩, hready⟩ := h
  have hc : c.cpu.cycles = s.cycles + m := hcycles
  have hd : d.cpu.cycles = t.cycles + m := congrArg Cpu.cycles hchip
  obtain ⟨⟨journal, hvideo, -⟩, -⟩ := hbus.video
  have hjournal : d.journal = journal := congrArg VideoBus.journal hvideo
  refine ⟨?_, by omega, hbus.ram, hbus.peripherals, ?_, hbus.picture.rest, hbus.picture.frames,
    fun i hi => ?_, hready⟩
  · rw [hd]
    exact hchip
  · rw [hjournal]
    exact hvideo
  · refine (hbus.picture.passed i ?_).symm
    omega

/-- By induction on the operations: what one leaves, refused or not, is what the next one finds. -/
theorem Matched.visits {s t : Tally} (hparity : s.cycles % 2 = t.cycles % 2)
    (h : Matched s t c d) {ops : List HostOp}
    (hops : ∀ op ∈ ops, op.advances = true ∨ op.holds = true)
    (hcount : ∀ r ∈ visits HostOp.run ops c ++ visits HostOp.run ops d,
      Visit.refusal? r ≠ some (.cpu .counterFull)) :
    List.Forall₂ (Alike (Resembles s t)) (visits HostOp.run ops c) (visits HostOp.run ops d) := by
  induction ops generalizing c d with
  | nil => exact .nil
  | cons op ops ih =>
    obtain ⟨hleft, hright⟩ := List.forall_mem_append.1 hcount
    obtain ⟨hfirst, hlater⟩ := List.forall_mem_cons.1 hleft
    obtain ⟨hfirst', hlater'⟩ := List.forall_mem_cons.1 hright
    have hr := (h.run hparity (hops op List.mem_cons_self)).alike
      (fun _ hfull => hfirst (by rw [hfull]; rfl)) fun _ hfull => hfirst' (by rw [hfull]; rfl)
    exact .cons (hr.mono fun _ _ => Matched.resembles)
      (ih hr.after (fun op' hmem => hops op' (List.mem_cons_of_mem _ hmem))
        (List.forall_mem_append.2 ⟨hlater, hlater'⟩))

/-- After resets of two consoles with the same in memory every later step, frame and change of
buttons ends alike on both, in consoles that are alike but for the counts and for what is not yet
redrawn. -/
theorem reset_forgets (hc : c.Reachable) (hd : d.Reachable) (h : c.SameMemory d) :
    ∃ c' d', reset c = .ok () c' ∧ reset d = .ok () d' ∧
      Resembles c.tally d.tally c' d' ∧
      ∀ ops : List HostOp, (∀ op ∈ ops, op.advances = true ∨ op.holds = true) →
        (∀ r ∈ visits HostOp.run ops c' ++ visits HostOp.run ops d',
          Visit.refusal? r ≠ some (.cpu .counterFull)) →
        List.Forall₂ (Alike (Resembles c.tally d.tally)) (visits HostOp.run ops c')
          (visits HostOp.run ops d') := by
  obtain ⟨c', d', hreset, hreset', hmatched⟩ := h.exists_reset hc.orderly hd.orderly
  exact ⟨c', d', hreset, hreset', hmatched.resembles, fun ops hops hcount =>
    hmatched.visits h.parity.symm hops hcount⟩

def strayPicture : Ppu where
  control := ⟨0x80⟩
  secondWrite := true
  nmiPending := true
  beam := ⟨100, 57⟩

/-- A console that was never reset, beside one stopped in the cycles of a reset. -/
theorem reset_forgets_stray :
    let c := wire idleCartridge {}
    let d := (c.restarted 0x8000).updateBus fun b =>
      { b with picture := strayPicture, peripherals := { transfer := some 2 } }
    let ops := [.step, .hold 0 0x81, .step]
    c.cpu.remaining = 0 ∧ d.cpu.remaining = 7 ∧
      ∃ c' d', reset c = .ok () c' ∧ reset d = .ok () d' ∧
        List.Forall₂ (Alike (Resembles c.tally d.tally)) (visits HostOp.run ops c')
          (visits HostOp.run ops d') := by
  intro c d ops
  have hsize : idleProgram.size = 0x4000 := by simp only [idleProgram, Array.size_ofFn]
  have hc : c.Reachable := .wire {} (ofImage_plain hsize {})
  have hreset := reset_eq (c := c) idleCartridge_idles.resetLow idleCartridge_idles.resetHigh
  have hreset' := reset_eq (c := d) idleCartridge_idles.resetLow idleCartridge_idles.resetHigh
  have hrun : HostOp.run .reset c = .ok none (c.restarted 0x8000) := bind_ok hreset
  have hstarted : (c.restarted 0x8000).Reachable := by
    have hvisit := hc.visit .reset
    rwa [hrun] at hvisit
  have hd : d.Reachable := hstarted.bypass strayPicture { transfer := some 2 }
  have hops : ∀ op ∈ ops, op.advances = true ∨ op.holds = true := by decide
  have hcount : ∀ r ∈ visits HostOp.run ops (c.restarted 0x8000) ++
      visits HostOp.run ops (d.restarted 0x8000),
        Visit.refusal? r ≠ some (.cpu .counterFull) := by decide +kernel
  obtain ⟨c', d', hfirst, hsecond, -, hlater⟩ :=
    reset_forgets hc hd ⟨rfl, rfl, rfl, rfl, rfl, rfl, rfl, rfl, rfl⟩
  obtain ⟨-, rfl⟩ := EStateM.Result.ok.inj (hreset.symm.trans hfirst)
  obtain ⟨-, rfl⟩ := EStateM.Result.ok.inj (hreset'.symm.trans hsecond)
  exact ⟨rfl, rfl, _, _, hreset, hreset', hlater ops hops hcount⟩

end Console
end NesConsole
