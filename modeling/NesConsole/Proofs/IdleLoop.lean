import NesConsole.Proofs.Picture.OverMemory
import NesConsole.Proofs.StepRule

/-! A program that jumps to itself. With interrupts off nothing else happens, and the console runs
on until its count of cycles is full. -/
namespace NesConsole

namespace Does
variable {β α : Type} {good : β → Prop}

theorem access {x : EStateM BusError (Wired Cpu β) α} {c c' : Cpu} {a : α}
    (h : Does good x c a c') : Does good (Cpu.access x) c a c' := by
  intro b hb
  obtain ⟨b', hb', h'⟩ := h b hb
  refine ⟨b', ?_, h'⟩
  dsimp only [Cpu.access, EStateM.adaptExcept]
  rw [hb']

end Does

structure JumpsToItself {β : Type} [CpuBus β] (good : β → Prop) (pc : UInt16) : Prop where
  opcode : Answers good pc 0x4C
  low : Answers good (pc + 1) (lowByte pc)
  high : Answers good (pc + 1 + 1) (highByte pc)
  untraced (b : β) : good b → CpuBus.tracing b = false

namespace Cpu

structure Idle (pc : UInt16) (c : Cpu) : Prop where
  running : c.fault = none
  noNmi : c.nmiPending = false
  noIrq : c.irqLine = false
  atJump : c.registers.pc = pc

section
variable {β : Type} [CpuBus β] {good : β → Prop} {pc : UInt16}

/-- The jump leaves the program counter where it is. -/
theorem does_jump {r : Registers} (h : JumpsToItself good r.pc) :
    Does good (Instruction.run ⟨.flow .jmp, .absolute, 3⟩ : Execution β Nat) r 0
      { r with p := { r.p with unused := true } } := by
  let p : Status := { r.p with unused := true }
  have hlow : Does good (fetchByte : Execution β UInt8) { r with pc := r.pc + 1, p := p }
      (lowByte r.pc) { r with pc := r.pc + 1 + 1, p := p } :=
    .bind (.look _) (.bind (.read h.low) (.bind (.update _) .pure))
  have hhigh : Does good (fetchByte : Execution β UInt8) { r with pc := r.pc + 1 + 1, p := p }
      (highByte r.pc) { r with pc := r.pc + 1 + 1 + 1, p := p } :=
    .bind (.look _) (.bind (.read h.high) (.bind (.update _) .pure))
  have hresolve : Does good (AddressingMode.absolute.resolve : Execution β Resolved)
      { r with pc := r.pc + 1, p := p } ⟨.memory (wordOf (lowByte r.pc) (highByte r.pc)), false⟩
      { r with pc := r.pc + 1 + 1 + 1, p := p } :=
    .bind (.bind hlow (.bind hhigh .pure)) .pure
  have hflow : Does good (Operation.run (.flow .jmp) (.memory r.pc) : Execution β Nat)
      { r with pc := r.pc + 1 + 1 + 1, p := p } 0 { r with p := p } :=
    .bind (.bind (.look _) (.update _)) .pure
  rw [wordOf_bytes] at hresolve
  exact .bind (.update _) (.bind hresolve (.bind hflow .pure))

theorem does_executeNext_jump {c : Cpu} (h : JumpsToItself good c.registers.pc) :
    Does good (executeNext : EStateM CpuError (Wired Cpu β) Unit) c ()
      { c with
        registers := { c.registers with p := { c.registers.p with unused := true } }
        remaining := 3 } := by
  have hdecode : Instruction.decode? 0x4C = some ⟨.flow .jmp, .absolute, 3⟩ := rfl
  refine .bind (.look _) (.bind (.access (.read h.opcode)) ?_)
  rw [hdecode]
  refine .bind_get fun b hb => .neg ?_ (.bind (.update _)
    (.bind (.access (.onPart (does_jump h))) (.update _)))
  rw [h.untraced b hb]
  nofun

theorem does_serve_idle {c : Cpu} (h : JumpsToItself good pc) (hc : c.Idle pc) :
    ∃ c', Does good (serve : EStateM CpuError (Wired Cpu β) Unit) c () c' ∧ c'.Idle pc ∧
      c'.cycles = c.cycles := by
  obtain ⟨hrun, hnmi, hirq, rfl⟩ := hc
  have hnone : ¬c.nmiPending = true := by rw [hnmi]; nofun
  have hmasked : ¬(c.irqLine && !c.registers.p.interruptDisable) = true := by rw [hirq]; nofun
  exact ⟨_, .bind (.look _) (.neg hnone (.neg hmasked (does_executeNext_jump h))),
    ⟨hrun, hnmi, hirq, rfl⟩, rfl⟩

/-- Its cycles pass until their count is full. -/
theorem Idle.clock {c : Cpu} (h : JumpsToItself good pc) (hc : c.Idle pc)
    (hlimit : c.cycles + 1 < cycleLimit) :
    ∃ c', Does good (clock : EStateM CpuError (Wired Cpu β) Unit) c () c' ∧ c'.Idle pc ∧
      c'.cycles = c.cycles + 1 := by
  have htick (c : Cpu) (hc : c.cycles + 1 < cycleLimit) :
      Does good (tick : EStateM CpuError (Wired Cpu β) Unit) c ()
        { c with remaining := c.remaining - 1, cycles := c.cycles + 1 } :=
    fun b hb => ⟨b, if_pos hc, hb⟩
  by_cases hremaining : c.remaining = 0
  · obtain ⟨c', hserve, ⟨hrun, hnmi, hirq, hjump⟩, hcycles⟩ := does_serve_idle h hc
    rw [← hcycles] at hlimit ⊢
    refine ⟨{ c' with remaining := c'.remaining - 1, cycles := c'.cycles + 1 },
      fun b hb => ?_, ⟨hrun, hnmi, hirq, hjump⟩, rfl⟩
    obtain ⟨b', hb', h'⟩ := hserve b hb
    obtain ⟨b'', hb'', h''⟩ := htick c' hlimit b' h'
    refine ⟨b'', ?_, h''⟩
    simp only [Cpu.clock, hc.running, hremaining, if_true, hb']
    exact hb''
  · refine ⟨{ c with remaining := c.remaining - 1, cycles := c.cycles + 1 },
      fun b hb => ?_, ⟨hc.running, hc.noNmi, hc.noIrq, hc.atJump⟩, rfl⟩
    have hclock : Cpu.clock ⟨c, b⟩ = tick ⟨c, b⟩ := by
      simp only [Cpu.clock, hc.running, hremaining, if_false]
    rw [hclock]
    exact htick c hlimit b hb

end
end Cpu

theorem videoMap_owner (address : UInt16) (h : address.toNat < 0x4000) :
    ∃ device, videoMap.owner? address = some device := by
  cases ho : videoMap.owner? address with
  | some device => exact ⟨device, rfl⟩
  | none =>
    simp only [AddressMap.owner?, Option.map_eq_none_iff, List.find?_eq_none] at ho
    simp [videoMap, Window.holds, UInt16.le_iff_toNat_le] at ho
    omega

namespace VideoBus

def byteAt (v : VideoBus) (address : UInt16) : UInt8 := (v.read address).toOption.getD 0

/-- Where every pattern is there, every read of the picture unit is answered. -/
theorem steady (v : VideoBus) (h : ∀ address, (v.cartridge.readPattern? address).isSome = true) :
    Steady v.byteAt (· = v) := by
  have hread (address : UInt16) : v.read address = .ok (v.byteAt address) := by
    have hlt : (address % 0x4000).toNat < 0x4000 := by
      rw [UInt16.toNat_mod]
      exact Nat.mod_lt _ (by decide)
    obtain ⟨device, hdevice⟩ := videoMap_owner _ hlt
    obtain ⟨byte, hbyte⟩ := Option.isSome_iff_exists.1 (h (address % 0x4000))
    unfold byteAt VideoBus.read
    dsimp only
    rw [hdevice]
    cases device with
    | patterns =>
      rw [hbyte]
      rfl
    | nameTables => rfl
    | nameTablesAgain => rfl
    | palette => rfl
  intro address _ he
  cases he
  refine ⟨_, ?_, rfl⟩
  dsimp only [Bus.read]
  rw [hread]

end VideoBus

structure Ppu.Quiet (p : Ppu) : Prop where
  masked : p.control.raisesNmi = false
  noneWaits : p.nmiPending = false

theorem Ppu.Quiet.tick {p : Ppu} (h : p.Quiet) : p.tick.nmi = false := by
  rw [Ppu.tick, h.masked, h.noneWaits, Bool.and_false, Bool.or_false]

theorem mainMap_cartridge {address : UInt16} (h : 0x4020 ≤ address) :
    mainMap.owner? address = some .cartridge := by
  have hwindows : mainMap.windows =
      mainMap.windows.take 6 ++ [⟨.cartridge, 0x4020, 0xFFFF⟩] := rfl
  have hends : ∀ w ∈ mainMap.windows.take 6, w.last < 0x4020 := by decide
  have hbelow : (mainMap.windows.take 6).find? (·.holds address) = none := by
    rw [List.find?_eq_none]
    intro w hw hholds
    simp only [Window.holds, Bool.and_eq_true, decide_eq_true_eq] at hholds
    exact absurd (UInt16.lt_of_lt_of_le (hends w hw) h) (UInt16.not_lt.2 hholds.2)
  have hlast : address ≤ 0xFFFF := by
    have hlt := address.toNat_lt
    rw [UInt16.le_iff_toNat_le]
    exact Nat.le_of_lt_succ hlt
  rw [AddressMap.owner?, hwindows, List.find?_append, hbelow]
  simp [Window.holds, h, hlast]

/-- A cartridge on whose board the console starts at a jump to itself. -/
structure Cartridge.Idles (c : Cartridge) (pc : UInt16) : Prop where
  inReach : 0x4020 ≤ pc ∧ pc ≤ 0xFFFD
  opcode : c.read? pc = some 0x4C
  low : c.read? (pc + 1) = some (lowByte pc)
  high : c.read? (pc + 1 + 1) = some (highByte pc)
  resetLow : c.read? resetVector = some (lowByte pc)
  resetHigh : c.read? (resetVector + 1) = some (highByte pc)
  patterns (address : UInt16) : (c.readPattern? address).isSome = true

namespace MainBus

theorem read_cartridge {b : MainBus} {address : UInt16} {byte : UInt8} (h : 0x4020 ≤ address)
    (hb : b.video.cartridge.read? address = some byte) : MainBus.read address b = .ok byte b := by
  unfold MainBus.read
  rw [mainMap_cartridge h]
  dsimp only
  rw [hb]

theorem jumpsToItself {b : MainBus} {pc : UInt16} (h : b.video.cartridge.Idles pc)
    (ht : CpuBus.tracing b = false) : JumpsToItself (· = b) pc := by
  obtain ⟨hfirst, hlast⟩ := h.inReach
  have hfirst' : 0x4020 ≤ pc.toNat := hfirst
  have hlast' : pc.toNat ≤ 0xFFFD := hlast
  have hsecond : 0x4020 ≤ pc + 1 := by
    rw [UInt16.le_iff_toNat_le, UInt16.toNat_add]
    change 0x4020 ≤ (pc.toNat + 1) % 65536
    omega
  have hthird : 0x4020 ≤ pc + 1 + 1 := by
    rw [UInt16.le_iff_toNat_le, UInt16.toNat_add, UInt16.toNat_add]
    change 0x4020 ≤ ((pc.toNat + 1) % 65536 + 1) % 65536
    omega
  refine ⟨?_, ?_, ?_, ?_⟩
  · intro _ he
    cases he
    exact ⟨_, read_cartridge hfirst h.opcode, rfl⟩
  · intro _ he
    cases he
    exact ⟨_, read_cartridge hsecond h.low, rfl⟩
  · intro _ he
    cases he
    exact ⟨_, read_cartridge hthird h.high, rfl⟩
  · intro _ he
    cases he
    exact ht

theorem stepDot_quiet {b : MainBus} {pc : UInt16} (h : b.video.cartridge.Idles pc)
    (hp : b.picture.Quiet) :
    ∃ p, stepDot b = .ok b.picture.tick { b with picture := p } ∧ p.Quiet := by
  obtain ⟨v, hstep, hv⟩ := Ppu.does_step (b.video.steady h.patterns) b.picture b.video rfl
  have hdot : stepDot b = .ok b.picture.tick
      { b with picture := b.picture.stepFrom b.video.byteAt } := by
    unfold stepDot onPicture
    dsimp only
    rw [hstep, hv]
  obtain ⟨-, ht⟩ := stepDot_timing hdot
  have hcontrol : (b.picture.stepFrom b.video.byteAt).control = b.picture.control :=
    congrArg Ppu.Timing.control ht
  refine ⟨_, hdot, ?_, congrArg Ppu.Timing.nmiPending ht⟩
  rw [hcontrol]
  exact hp.masked

end MainBus

theorem Journal.keeps_noteAll (l : Level) (es : List Event) (j : Journal) :
    (j.noteAll es).keeps l = j.keeps l := by
  have hnote (j : Journal) (e : Event) : (j.note e).keeps l = j.keeps l := by
    unfold Journal.note
    split <;> rfl
  induction es generalizing j with
  | nil => rfl
  | cons e es ih => exact (ih (j.note e)).trans (hnote j e)

namespace Console

structure Idle (cartridge : Cartridge) (pc : UInt16) (c : Console) : Prop where
  cpu : c.cpu.Idle pc
  cartridge : c.cartridge = cartridge
  untraced : c.journal.keeps .trace = false
  picture : c.picture.Quiet
  noTransfer : c.bus.peripherals.transfer = none

section
variable {cartridge : Cartridge} {pc : UInt16} {c : Console}

theorem Idle.clock (hpc : cartridge.Idles pc) (h : c.Idle cartridge pc)
    (hlimit : c.cpu.cycles + 1 < cycleLimit) :
    ∃ d, onMachine Cpu.clock c = .ok () d ∧ d.Idle cartridge pc ∧
      d.cpu.cycles = c.cpu.cycles + 1 := by
  obtain ⟨hcpu, rfl, htrace, hpicture, htransfer⟩ := h
  obtain ⟨chip, hdoes, hidle, hcycles⟩ := hcpu.clock (MainBus.jumpsToItself hpc htrace) hlimit
  obtain ⟨b, hclock, hb⟩ := hdoes c.bus rfl
  subst hb
  refine ⟨⟨⟨chip, c.bus⟩, c.frameReady⟩, ?_, ⟨hidle, rfl, htrace, hpicture, htransfer⟩, hcycles⟩
  have hmachine : Cpu.clock c.machine = .ok () ⟨chip, c.bus⟩ := hclock
  dsimp only [onMachine]
  rw [hmachine]

theorem Idle.heed (h : c.Idle cartridge pc) {tick : Tick} (ht : tick.nmi = false) :
    (c.heed tick).Idle cartridge pc ∧ (c.heed tick).cpu = c.cpu := by
  obtain ⟨hcpu, hcartridge, htrace, hpicture, htransfer⟩ := h
  simp only [Console.heed, ht, Bool.false_eq_true, if_false]
  split
  · exact ⟨⟨hcpu, hcartridge, htrace, hpicture, htransfer⟩, rfl⟩
  · exact ⟨⟨hcpu, hcartridge, htrace, hpicture, htransfer⟩, rfl⟩

theorem Idle.stepDot (hpc : cartridge.Idles pc) (h : c.Idle cartridge pc) :
    ∃ d, Console.stepDot c = .ok () d ∧ d.Idle cartridge pc ∧ d.cpu = c.cpu := by
  obtain ⟨hcpu, rfl, htrace, hpicture, htransfer⟩ := h
  obtain ⟨p, hdot, hquiet⟩ := MainBus.stepDot_quiet hpc hpicture
  have hbus : onBus MainBus.stepDot c = .ok c.picture.tick
      ⟨⟨c.cpu, { c.bus with picture := p }⟩, c.frameReady⟩ := by
    have hmain : MainBus.stepDot c.machine.bus = .ok c.picture.tick { c.bus with picture := p } :=
      hdot
    dsimp only [onBus, Wired.onBus]
    rw [hmain]
    rfl
  have hidle : Idle c.cartridge pc ⟨⟨c.cpu, { c.bus with picture := p }⟩, c.frameReady⟩ :=
    ⟨hcpu, rfl, htrace, hquiet, htransfer⟩
  obtain ⟨hheed, hsame⟩ := hidle.heed hpicture.tick
  exact ⟨_, bind_ok hbus, hheed, hsame⟩

theorem Idle.serveTransfer (h : c.Idle cartridge pc) :
    ∃ d, Console.serveTransfer c = .ok () d ∧ d.Idle cartridge pc ∧ d.cpu = c.cpu := by
  obtain ⟨hcpu, hcartridge, htrace, hpicture, htransfer⟩ := h
  have hbus : onBus MainBus.takeTransfer c = .ok c.bus.peripherals.transfer
      ⟨⟨c.cpu, { c.bus with peripherals := { c.bus.peripherals with transfer := none } }⟩,
        c.frameReady⟩ := rfl
  rw [htransfer] at hbus
  exact ⟨_, bind_ok hbus, ⟨hcpu, hcartridge, htrace, hpicture, rfl⟩, rfl⟩

theorem Idle.step (hpc : cartridge.Idles pc) (h : c.Idle cartridge pc)
    (hlimit : c.cpu.cycles + 1 < cycleLimit) :
    ∃ d, Console.step c = .ok () d ∧ d.Idle cartridge pc ∧ d.cpu.cycles = c.cpu.cycles + 1 := by
  obtain ⟨c₁, hclock, h₁, hcycles⟩ := h.clock hpc hlimit
  obtain ⟨c₂, hfirst, h₂, hcpu₂⟩ := h₁.stepDot hpc
  obtain ⟨c₃, hsecond, h₃, hcpu₃⟩ := h₂.stepDot hpc
  obtain ⟨c₄, hthird, h₄, hcpu₄⟩ := h₃.stepDot hpc
  obtain ⟨c₅, hserve, h₅, hcpu₅⟩ := h₄.serveTransfer
  refine ⟨c₅, ?_, h₅, ?_⟩
  · unfold Console.step
    rw [bind_ok hclock, bind_ok hfirst, bind_ok hsecond, bind_ok hthird, hserve]
  · rw [hcpu₅, hcpu₄, hcpu₃, hcpu₂, hcycles]

theorem Idle.stepUntilReady (hpc : cartridge.Idles pc) (n : Nat) (h : c.Idle cartridge pc)
    (hlimit : c.cpu.cycles + n < cycleLimit) :
    ∃ d, Console.stepUntilReady n c = .ok () d ∧ d.Idle cartridge pc ∧
      d.cpu.cycles ≤ c.cpu.cycles + n := by
  induction n generalizing c with
  | zero => exact ⟨c, rfl, h, Nat.le_refl _⟩
  | succ n ih =>
    rw [stepUntilReady_succ]
    cases hr : c.frameReady with
    | true => exact ⟨c, rfl, h, Nat.le_add_right _ _⟩
    | false =>
      obtain ⟨d, hstep, hd, hcycles⟩ := h.step hpc (by omega)
      obtain ⟨e, hrest, he, hle⟩ := ih hd (by omega)
      exact ⟨e, (bind_ok hstep).trans hrest, he, by omega⟩

theorem Idle.runFrames (hpc : cartridge.Idles pc) (n : Nat) (h : c.Idle cartridge pc)
    (hlimit : c.cpu.cycles + longestFrame * n < cycleLimit) :
    ∃ d, calls (List.replicate n .runFrame) c = .ok () d ∧ d.Idle cartridge pc := by
  induction n generalizing c with
  | zero => exact ⟨c, rfl, h⟩
  | succ n ih =>
    rw [Nat.mul_succ] at hlimit
    have hstart : Idle cartridge pc { c with frameReady := false } :=
      ⟨h.cpu, h.cartridge, h.untraced, h.picture, h.noTransfer⟩
    have hcycles : ({ c with frameReady := false } : Console).cpu.cycles = c.cpu.cycles := rfl
    obtain ⟨d, hframe, hd, hle⟩ := hstart.stepUntilReady hpc longestFrame (by omega)
    obtain ⟨e, hrest, he⟩ := ih hd (by omega)
    have hrun : runFrame c = .ok () d := hframe
    exact ⟨e, (bind_ok hrun).trans hrest, he⟩

def restarted (pc : UInt16) (c : Console) : Console where
  machine :=
    ⟨{ registers := { pc := pc }, cycles := c.cpu.cycles, remaining := interruptCycles },
      c.bus.reset.note [.cpu (.reset pc)]⟩

theorem reset_eq {c : Console} (hlow : c.cartridge.read? resetVector = some (lowByte pc))
    (hhigh : c.cartridge.read? (resetVector + 1) = some (highByte pc)) :
    Console.reset c = .ok () (c.restarted pc) := by
  obtain ⟨⟨chip, bus⟩, ready⟩ := c
  let b := bus.reset
  have hlow : Answers (· = b) resetVector (lowByte pc) := by
    intro _ he
    cases he
    exact ⟨_, MainBus.read_cartridge (by decide) hlow, rfl⟩
  have hhigh : Answers (· = b) (resetVector + 1) (highByte pc) := by
    intro _ he
    cases he
    exact ⟨_, MainBus.read_cartridge (by decide) hhigh, rfl⟩
  have hvector : Does (· = b) (Cpu.access (readWord resetVector)) chip
      (wordOf (lowByte pc) (highByte pc)) chip :=
    .access (.bind (.read hlow) (.bind (.read hhigh) .pure))
  rw [wordOf_bytes] at hvector
  obtain ⟨_, hread, rfl⟩ := hvector b rfl
  have hcpu : Cpu.reset ⟨chip, b⟩ = .ok ()
      ⟨{ registers := { pc := pc }, cycles := chip.cycles, remaining := interruptCycles },
        b.note [.cpu (.reset pc)]⟩ :=
    bind_ok hread
  have hmachine : onMachine Cpu.reset ⟨⟨chip, b⟩, ready⟩ = .ok ()
      ⟨⟨{ registers := { pc := pc }, cycles := chip.cycles, remaining := interruptCycles },
        b.note [.cpu (.reset pc)]⟩, ready⟩ := by
    dsimp only [onMachine]
    rw [hcpu]
  exact bind_ok hmachine

def started (cartridge : Cartridge) (journal : Journal) (pc : UInt16) : Console where
  machine :=
    ⟨{ registers := { pc := pc }, remaining := interruptCycles },
      (MainBus.wire cartridge journal).reset.note [.cpu (.reset pc)]⟩

theorem reset_wire (journal : Journal) (hlow : cartridge.read? resetVector = some (lowByte pc))
    (hhigh : cartridge.read? (resetVector + 1) = some (highByte pc)) :
    Console.reset (.wire cartridge journal) = .ok () (started cartridge journal pc) :=
  reset_eq hlow hhigh

theorem idle_reset {journal : Journal} (hpc : cartridge.Idles pc)
    (hjournal : journal.keeps .trace = false) :
    ∃ d, Console.reset (.wire cartridge journal) = .ok () d ∧ d.Idle cartridge pc ∧
      d.cpu.cycles = 0 := by
  have hquiet : (Ppu.reset {}).Quiet := ⟨by decide, rfl⟩
  refine ⟨_, reset_wire journal hpc.resetLow hpc.resetHigh,
    ⟨⟨rfl, rfl, rfl, rfl⟩, rfl, ?_, hquiet, rfl⟩, rfl⟩
  change ((journal.noteAll MainBus.wiringEvents).noteAll [.cpu (.reset pc)]).keeps .trace = false
  rw [Journal.keeps_noteAll, Journal.keeps_noteAll, hjournal]

/-- Such a console runs any number of frames that the count of cycles has room for. -/
theorem idle_runs (hpc : cartridge.Idles pc) (journal : Journal)
    (hjournal : journal.keeps .trace = false) (n : Nat) (hn : longestFrame * n < cycleLimit) :
    ∃ c, calls (.reset :: List.replicate n .runFrame) (.wire cartridge journal) = .ok () c := by
  obtain ⟨d, hreset, hidle, hcycles⟩ := idle_reset hpc hjournal
  obtain ⟨c, hrun, -⟩ := hidle.runFrames hpc n (by omega)
  exact ⟨c, (bind_ok hreset).trans hrun⟩

end
end Console

/-- One bank whose first bytes jump to `$8000`, where the reset vector points. -/
def idleProgram : Array UInt8 :=
  Array.ofFn fun i : Fin 0x4000 =>
    if i.val = 0 then 0x4C else if i.val = 2 ∨ i.val = 0x3FFD then 0x80 else 0

theorem getElem?_idleProgram {i : Nat} (h : i < 0x4000) : idleProgram[i]? =
    some (if i = 0 then 0x4C else if i = 2 ∨ i = 0x3FFD then 0x80 else 0) := by
  simp only [idleProgram, Array.getElem?_ofFn, h, dif_pos]

def idleCartridge : Cartridge where
  header := ⟨1, 0, 0, 0, .horizontal, false, false, false⟩
  board := ⟨⟨idleProgram⟩, .ofRom #[], .nrom⟩
  work := .volatile Cartridge.blankWorkRam
  path := none

theorem read?_idleCartridge (address : UInt16) (h : 0x8000 ≤ address) :
    idleCartridge.read? address = idleProgram[address.toNat % 0x4000]? := by
  have hsize : Rom.size ⟨idleProgram⟩ = 0x4000 := by
    simp only [Rom.size, idleProgram, Array.size_ofFn]
  simp only [Cartridge.read?, h, if_true, idleCartridge, Board.read?, hsize, Nat.lt_irrefl,
    if_false, Rom.get?]

theorem readPattern?_idleCartridge (address : UInt16) :
    idleCartridge.readPattern? address = some 0 := by
  have hlt : address.toNat % 0x2000 < 0x2000 := Nat.mod_lt _ (by decide)
  have hpatterns : (PatternMemory.ofRom #[]).bytes = Array.replicate 0x2000 0 := rfl
  simp only [Cartridge.readPattern?, idleCartridge, Board.readPattern?, Board.patternPlace,
    PatternMemory.read?, Bank.place?, Bank.count?, hpatterns, Array.size_replicate]
  simp [Bank.count, Array.getElem?_replicate, hlt]

theorem idleCartridge_idles : idleCartridge.Idles 0x8000 := by
  have hread (address : UInt16) (h : 0x8000 ≤ address) : idleCartridge.read? address =
      some (if address.toNat % 0x4000 = 0 then 0x4C
        else if address.toNat % 0x4000 = 2 ∨ address.toNat % 0x4000 = 0x3FFD then 0x80 else 0) := by
    rw [read?_idleCartridge address h, getElem?_idleProgram (Nat.mod_lt _ (by decide))]
  refine ⟨by decide, ?_, ?_, ?_, ?_, ?_, fun address => ?_⟩
  · exact hread 0x8000 (by decide)
  · exact hread (0x8000 + 1) (by decide)
  · exact hread (0x8000 + 1 + 1) (by decide)
  · exact hread resetVector (by decide)
  · exact hread (resetVector + 1) (by decide)
  · rw [readPattern?_idleCartridge, Option.isSome_some]

end NesConsole
