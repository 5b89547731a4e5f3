import NesConsole.Proofs.Faults.Finality
import NesConsole.Proofs.Processor.FarWrites

/-! How long an object transfer holds the processor up. It is served in the first cycle of the
instruction that asks for it, and the parity of that cycle decides whether it takes a cycle more.
The rest of the instruction passes after that, so what comes next begins on an even cycle exactly
if the instruction takes an even number of them. Those that store at an indexed absolute address do
not. -/
namespace NesConsole

/-- Of the instructions that write past the stack, these take an odd number of cycles. -/
theorem Instruction.decode?_odd {opcode : UInt8} {i : Instruction} (h : decode? opcode = some i)
    (hfar : i.storesFar = true) :
    i.cycles % 2 = 1 ↔ i.mode = .absoluteX ∨ i.mode = .absoluteY := by
  have hall := of_decide_eq_true (of_decode? (p := fun i => decide (i.storesFar = true →
    (i.cycles % 2 = 1 ↔ i.mode = .absoluteX ∨ i.mode = .absoluteY))) (by decide) h)
  exact hall hfar

def Peripherals.asked (request : Option UInt8) (write : UInt16 × UInt8) : Option UInt8 :=
  if write.1 = transferAddress then some write.2 else request

def Recorded.Asks (request : Option UInt8) (r : Recorded MainBus) : Prop :=
  r.bus.peripherals.transfer =
    r.writes.foldr (fun write request => Peripherals.asked request write) request

theorem MainBus.write_transferAddress (page : UInt8) (b : MainBus) :
    ∃ b', MainBus.write Peripherals.transferAddress page b = .ok () b' ∧
      b'.peripherals.transfer = some page := by
  have howner : mainMap.owner? Peripherals.transferAddress = some .peripherals := by decide
  unfold MainBus.write
  rw [howner]
  exact ⟨_, rfl, rfl⟩

instance (request : Option UInt8) : BusKeeps (Recorded.Asks request) where
  read address := Recorded.keeps_recording fun b writes h => by
    have hkept := MainBus.transfer_mainRead address b rfl
    dsimp only [Bus.read]
    cases hread : MainBus.read address b <;> rw [hread] at hkept
    all_goals exact hkept.trans h
  write address data := Recorded.keeps_recording fun b writes h => by
    dsimp only [Bus.write]
    by_cases ha : address = Peripherals.transferAddress
    · subst ha
      obtain ⟨b', hwrite, hasked⟩ := MainBus.write_transferAddress data b
      rw [hwrite]
      exact hasked
    · have hkept := MainBus.transfer_mainWrite ha data b rfl
      cases hwrite : MainBus.write address data b <;> rw [hwrite] at hkept
      case ok => exact (hkept.trans h).trans (if_neg ha).symm
      case error => exact hkept.trans h
  report event r h := h

def MainBus.released (b : MainBus) : MainBus :=
  { b with peripherals := { b.peripherals with transfer := none } }

theorem MainBus.released_of_none {b : MainBus} (h : b.peripherals.transfer = none) :
    b.released = b := by
  obtain ⟨ram, ⟨first, second, transfer⟩, video, picture⟩ := b
  obtain rfl : transfer = none := h
  rfl

namespace Console

section
variable {α : Type} {c : Console}

theorem onMachine_ok {x : EStateM CpuError (Wired Cpu MainBus) α} {a : α} {w : Wired Cpu MainBus}
    (h : x c.machine = .ok a w) : onMachine x c = .ok a ⟨w, c.frameReady⟩ := by
  dsimp only [onMachine]
  rw [h]

theorem onMachine_error {x : EStateM CpuError (Wired Cpu MainBus) α} {e : CpuError}
    {w : Wired Cpu MainBus} (h : x c.machine = .error e w) :
    onMachine x c = .error (.cpu e) ⟨w, c.frameReady⟩ := by
  dsimp only [onMachine]
  rw [h]

theorem onBus_ok {x : EStateM BusError MainBus α} {a : α} {b : MainBus} (h : x c.bus = .ok a b) :
    onBus x c = .ok a ⟨⟨c.cpu, b⟩, c.frameReady⟩ := by
  obtain ⟨⟨chip, bus⟩, ready⟩ := c
  have h : x bus = .ok a b := h
  dsimp only [onBus, Wired.onBus]
  rw [h]
  rfl

theorem onBus_error {x : EStateM BusError MainBus α} {e : BusError} {b : MainBus}
    (h : x c.bus = .error e b) : onBus x c = .error (.bus e) ⟨⟨c.cpu, b⟩, c.frameReady⟩ := by
  obtain ⟨⟨chip, bus⟩, ready⟩ := c
  have h : x bus = .error e b := h
  dsimp only [onBus, Wired.onBus]
  rw [h]
  rfl

end

def pass : EStateM ConsoleError Console Unit := do
  onMachine Cpu.clock
  stepDot
  stepDot
  stepDot

theorem step_eq_pass : step = pass >>= fun _ => serveTransfer := by
  simp only [step, pass, bind_assoc]

section
variable {c : Console} {page : UInt8} {b : MainBus}

theorem serveTransfer_none (h : c.bus.peripherals.transfer = none) :
    serveTransfer c = .ok () c := by
  have htake : onBus MainBus.takeTransfer c =
      .ok c.bus.peripherals.transfer ⟨⟨c.cpu, c.bus.released⟩, c.frameReady⟩ := rfl
  rw [h, MainBus.released_of_none h] at htake
  exact bind_ok htake

theorem serveTransfer_some (h : c.bus.peripherals.transfer = some page) :
    serveTransfer c = (onBus (MainBus.transferObjects page) >>= fun _ =>
      get >>= fun d => onMachine (Cpu.stall (transferCycles + d.cpu.cycles % 2)))
        ⟨⟨c.cpu, c.bus.released⟩, c.frameReady⟩ := by
  have htake : onBus MainBus.takeTransfer c =
      .ok c.bus.peripherals.transfer ⟨⟨c.cpu, c.bus.released⟩, c.frameReady⟩ := rfl
  rw [h] at htake
  exact bind_ok htake

theorem serveTransfer_ok (h : c.bus.peripherals.transfer = some page)
    (hcopy : MainBus.transferObjects page c.bus.released = .ok () b)
    (hroom : c.cpu.remaining + 514 < waitLimit) : serveTransfer c = .ok () ⟨⟨{ c.cpu with
      remaining := c.cpu.remaining + (transferCycles + c.cpu.cycles % 2) }, b⟩, c.frameReady⟩ := by
  have hlimit : c.cpu.remaining + (transferCycles + c.cpu.cycles % 2) < waitLimit := by
    have hparity := Nat.mod_lt c.cpu.cycles (show 0 < 2 by decide)
    unfold transferCycles
    omega
  let d : Console := ⟨⟨c.cpu, b⟩, c.frameReady⟩
  have hstall := (Cpu.stall_eq (transferCycles + d.cpu.cycles % 2) d.machine).trans (if_pos hlimit)
  rw [serveTransfer_some h, bind_ok (onBus_ok hcopy)]
  exact (bind_ok rfl).trans (onMachine_ok (c := d) hstall)

theorem serveTransfer_error {e : BusError} (h : c.bus.peripherals.transfer = some page)
    (hcopy : MainBus.transferObjects page c.bus.released = .error e b) :
    serveTransfer c = .error (.bus e) ⟨⟨c.cpu, b⟩, c.frameReady⟩ := by
  rw [serveTransfer_some h]
  exact bind_error (onBus_error hcopy)

end

structure Waits (n m : Nat) (request : Option UInt8) (c : Console) : Prop where
  whole : c.bus.Whole
  running : c.cpu.fault = none
  cycles : c.cpu.cycles = n
  remaining : c.cpu.remaining = m
  transfer : c.bus.peripherals.transfer = request

variable {n m : Nat} {request : Option UInt8}

theorem waits_heed {c : Console} (h : c.Waits n m request) (tick : Tick) :
    (c.heed tick).Waits n m request := by
  obtain ⟨nmi, complete⟩ := tick
  cases nmi <;> cases complete <;> exact ⟨h.1, h.2, h.3, h.4, h.5⟩

theorem waits_stepDot :
    Leads (Waits n m request) stepDot (fun _ => Waits n m request) fun _ _ => False := by
  refine .bind (M := fun _ => Waits n m request) ?_ fun tick _ h => waits_heed h tick
  intro ⟨⟨chip, b⟩, ready⟩ h
  have hwhole : b.Whole := h.whole
  obtain ⟨p, hdot⟩ := MainBus.exists_stepDot hwhole
  dsimp only [onBus, Wired.onBus]
  rw [hdot]
  exact ⟨h.1, h.2, h.3, h.4, h.5⟩

/-- No dot is refused. -/
theorem pass_of_clock {c : Console} {w : Wired Cpu MainBus} (h : Cpu.clock c.machine = .ok () w)
    (hwhole : w.bus.Whole) : ∃ e, pass c = .ok () e ∧
      e.Waits w.chip.cycles w.chip.remaining w.bus.peripherals.transfer := by
  let d : Console := ⟨w, c.frameReady⟩
  have hwaits : d.Waits w.chip.cycles w.chip.remaining w.bus.peripherals.transfer :=
    ⟨hwhole, Cpu.running_of_clock h, rfl, rfl, rfl⟩
  have hdots := Leads.bind waits_stepDot (fun _ => .bind waits_stepDot fun _ => waits_stepDot) d
    hwaits
  have hpass : pass c = (stepDot >>= fun _ => stepDot >>= fun _ => stepDot) d :=
    bind_ok (onMachine_ok h)
  cases hx : pass c <;> rw [← hpass, hx] at hdots
  case ok _ e => exact ⟨e, rfl, hdots⟩
  case error => exact hdots.elim

/-- A processor that waits counts a cycle, whatever bus it is on. -/
theorem clock_of_waits {β : Type} [CpuBus β] {c : Console} (h : c.Waits n (m + 1) request)
    (hroom : n + 1 < cycleLimit) (b : β) :
    Cpu.clock (⟨c.cpu, b⟩ : Wired Cpu β) = .ok () (Cpu.waited 1 ⟨c.cpu, b⟩) := by
  have hbusy : c.cpu.remaining ≠ 0 := h.remaining ▸ Nat.succ_ne_zero m
  exact (Cpu.clock_busy (w := ⟨c.cpu, b⟩) h.running hbusy).trans (if_pos (h.cycles.symm ▸ hroom))

/-- A cycle that is waited for passes, and its step makes no transfer. -/
theorem step_of_waits {c : Console} (h : c.Waits n (m + 1) none) (hroom : n + 1 < cycleLimit) :
    ∃ d, pass c = .ok () d ∧ step c = .ok () d ∧ d.Waits (n + 1) m none := by
  obtain ⟨d, hpass, hwaits⟩ := pass_of_clock (clock_of_waits h hroom c.bus) h.whole
  have htransfer : d.bus.peripherals.transfer = none := hwaits.transfer.trans h.transfer
  refine ⟨d, hpass, ?_, hwaits.whole, hwaits.running, ?_, ?_, htransfer⟩
  · rw [step_eq_pass, bind_ok hpass]
    exact serveTransfer_none htransfer
  · rw [hwaits.cycles, ← h.cycles]
    rfl
  · rw [hwaits.remaining, ← Nat.add_sub_cancel m 1, ← h.remaining]
    rfl

/-- What is left of the instruction waits for the transfer, a cycle longer on an odd cycle. -/
theorem transfer_of_waits {c : Console} {page : UInt8} (h : c.Waits n m (some page))
    (hpage : page ≠ 0x40) (hm : m + 514 < waitLimit) :
    ∃ d, serveTransfer c = .ok () d ∧ d.Waits n (m + (transferCycles + n % 2)) none := by
  have hroom : c.cpu.remaining + 514 < waitLimit := h.remaining.symm ▸ hm
  have hcopied := MainBus.leads_transferObjects page c.bus.released h.whole
  have hcalm := MainBus.calms_transferObjects none page c.bus.released ⟨h.whole, rfl⟩
  cases hx : MainBus.transferObjects page c.bus.released <;> rw [hx] at hcopied hcalm
  case ok _ b =>
    refine ⟨_, serveTransfer_ok h.transfer hx hroom, hcalm.1, h.running, h.cycles, ?_, hcalm.2⟩
    rw [← h.remaining, ← h.cycles]
    rfl
  case error => exact absurd hcopied.2.1 hpage

theorem waits_afterOps {k : Nat} {c : Console} (h : c.Waits n m none) (hk : k ≤ m)
    (hroom : n + k < cycleLimit) :
    (afterOps (List.replicate k .step) c).Waits (n + k) (m - k) none := by
  induction k generalizing n m c with
  | zero => exact h
  | succ k ih =>
    obtain ⟨m, rfl⟩ : ∃ l, m = l + 1 := ⟨m - 1, by omega⟩
    obtain ⟨d, -, hstep, hwaits⟩ := step_of_waits h (by omega)
    have hafter : Visit.after (HostOp.run .step c) = d := by
      rw [show HostOp.run .step c = .ok none d from bind_ok hstep]
      rfl
    have hrest := ih hwaits (Nat.le_of_succ_le_succ hk) (by omega)
    rw [show n + (k + 1) = n + 1 + k by omega, Nat.add_sub_add_right, List.replicate_succ,
      afterOps, hafter]
    exact hrest

/-- The cycle in which an instruction asks for a transfer. It writes nothing else, and the rest of
the instruction is left to wait for. -/
theorem clock_of_request {w : Wired Cpu MainBus} {page : UInt8}
    (hwrite : (Peripherals.transferAddress, page) ∈ Cpu.writes w)
    (hroom : w.chip.cycles + 1 < cycleLimit) :
    Cpu.writes w = [(Peripherals.transferAddress, page)] ∧
    ∃ i v, Cpu.fetched? w = some i ∧ i.storesFar = true ∧ Cpu.clock w = .ok () v ∧
      v.chip.cycles = w.chip.cycles + 1 ∧ v.chip.remaining = i.cycles - 1 ∧
      v.bus.peripherals.transfer = some page := by
  have hhigh : ¬Low Peripherals.transferAddress := by
    unfold Low
    decide
  obtain ⟨hfault, hidle, hboundary, i, v, hfetch, hfar, hnext, hcycles, hrecord⟩ :=
    Cpu.far_write hwrite hhigh
  have hcount := Cpu.keepsView_executeNext (f := Cpu.cycles) ⟨fun _ _ => rfl, fun _ _ => rfl⟩ _
    w rfl
  rw [hnext] at hcount
  have hcount : v.chip.cycles = w.chip.cycles := hcount
  have hclock : Cpu.clock w = .ok () (Cpu.waited 1 v) := by
    have hserved := Cpu.clock_idle hfault hidle
    rw [hboundary, Cpu.enter, hnext] at hserved
    refine hserved.trans ((Cpu.tick_eq v).trans (if_pos ?_))
    rwa [hcount]
  have hasks : Recorded.Asks w.bus.peripherals.transfer (Cpu.recorded w) := BusKeeps.recorded rfl
  rw [hrecord] at hasks
  refine ⟨by rw [Cpu.writes, hrecord]; rfl, i, _, hfetch, hfar, hclock, ?_, ?_, hasks⟩
  · exact congrArg (· + 1) hcount
  · exact congrArg (· - 1) hcycles

/-- A step in which an instruction asks for a transfer serves it. -/
theorem waits_of_request {c : Console} (hsafe : c.Safe) {page : UInt8} (hpage : page ≠ 0x40)
    (hwrite : (Peripherals.transferAddress, page) ∈ Cpu.writes c.machine)
    (hroom : c.cpu.cycles + 1 < cycleLimit) :
    ∃ i d, Cpu.fetched? c.machine = some i ∧ i.storesFar = true ∧ step c = .ok () d ∧ d.Waits
      (c.cpu.cycles + 1) (i.cycles - 1 + (transferCycles + (c.cpu.cycles + 1) % 2)) none := by
  obtain ⟨-, i, v, hfetch, hfar, hclock, hcount, hcycles, hasked⟩ :=
    clock_of_request hwrite hroom
  have hsound := Cpu.leads_clock c.machine hsafe
  rw [hclock] at hsound
  obtain ⟨e, hpass, hwaits⟩ := pass_of_clock hclock hsound.whole
  rw [hasked, hcount, hcycles] at hwaits
  obtain ⟨opcode, hi⟩ := Cpu.exists_decode? hfetch
  have hshort : i.cycles - 1 + 514 < waitLimit := by
    have hlength := (Instruction.decode?_cycles hi).2
    unfold waitLimit
    omega
  obtain ⟨d, hserved, hlater⟩ := transfer_of_waits hwaits hpage hshort
  refine ⟨i, d, hfetch, hfar, ?_, hlater⟩
  rw [step_eq_pass, bind_ok hpass, hserved]

/-- Where an instruction on a console around an accepted image asks for the transfer of a page that
can be copied, the step serves it. The processor waits for the rest of the instruction and 513
cycles, one more if the cycle count after the first cycle is odd. What comes next begins on an even
count, unless the instruction stores at an indexed absolute address. -/
theorem transfer_ends_even {image : Array UInt8} {path : Option String} {disk : Disk}
    {cartridge : Cartridge} {events : List CartridgeEvent}
    (himage : Cartridge.ofImage image path disk = .ok (cartridge, events)) (journal : Journal)
    (ops : List HostOp) (hops : ∀ op ∈ ops, op.requests = false) {page : UInt8}
    (hpage : page ≠ 0x40)
    (hwrite : (Peripherals.transferAddress, page) ∈
      Cpu.writes (afterOps ops (wire cartridge journal)).machine)
    (hroom : (afterOps ops (wire cartridge journal)).cpu.cycles + 525 < cycleLimit) :
    let c := afterOps ops (wire cartridge journal)
    ∃ i d, Cpu.fetched? c.machine = some i ∧ HostOp.run .step c = .ok none d ∧
      d.cpu.cycles = c.cpu.cycles + 1 ∧
      d.cpu.remaining = i.cycles - 1 + (transferCycles + d.cpu.cycles % 2) ∧
      (∀ k ≤ d.cpu.remaining,
        let e := afterOps (List.replicate k .step) d
        e.cpu.fault = none ∧ e.cpu.cycles = d.cpu.cycles + k ∧
          e.cpu.remaining = d.cpu.remaining - k) ∧
      ((d.cpu.cycles + d.cpu.remaining) % 2 = 0 ↔
        i.mode ≠ .absoluteX ∧ i.mode ≠ .absoluteY) := by
  intro c
  have hsafe : c.Safe := safe_afterOps hops (safe_wire (Cartridge.whole_ofImage himage) journal)
  have hcount : c.cpu.cycles + 525 < cycleLimit := hroom
  obtain ⟨i, d, hfetch, hfar, hstep, hwaits⟩ := waits_of_request hsafe hpage hwrite (by omega)
  obtain ⟨opcode, hi⟩ := Cpu.exists_decode? hfetch
  have hlength := Instruction.decode?_cycles hi
  have hodd := Instruction.decode?_odd hi hfar
  have hcycles := hwaits.cycles
  have hremaining := hwaits.remaining
  have hlimit : (c.cpu.cycles + 1) % 2 < 2 := Nat.mod_lt _ (by decide)
  unfold transferCycles at hremaining
  refine ⟨i, d, hfetch, bind_ok hstep, hcycles, ?_, fun k hk => ?_, ?_⟩
  · rw [hcycles, hremaining]
    rfl
  · rw [hremaining] at hk
    have hlater := waits_afterOps hwaits hk (by omega)
    rw [hcycles, hremaining]
    exact ⟨hlater.running, hlater.cycles, hlater.remaining⟩
  · rw [hcycles, hremaining, ← not_or, ← hodd]
    omega

/-- A program that increments `$4014`, which reads as zero. -/
def incrementedRequest : Array UInt8 := bootProgram [0xEE, 0x14, 0x40]

theorem transfer_ends_even_increment :
    let c := afterOps (bootHost 7) (wire (plainCartridge incrementedRequest) {})
    (Peripherals.transferAddress, 1) ∈ Cpu.writes c.machine ∧
    ∃ d, HostOp.run .step c = .ok none d ∧ (d.cpu.cycles + d.cpu.remaining) % 2 = 0 ∧
      (afterOps (List.replicate d.cpu.remaining .step) d).cpu.remaining = 0 := by
  have hsize : incrementedRequest.size = 0x4000 := size_bootProgram (by decide)
  have himage := ofImage_plain hsize {}
  have hruns :
      let c := afterOps (bootHost 7) (wire (plainCartridge incrementedRequest) {})
      (Peripherals.transferAddress, 1) ∈ Cpu.writes c.machine ∧
        c.cpu.cycles + 525 < cycleLimit ∧
        Cpu.fetched? c.machine = some ⟨.modify .inc, .absolute, 6⟩ := by decide +kernel
  obtain ⟨hwrite, hroom, hfetched⟩ := hruns
  obtain ⟨i, d, hfetch, hstep, -, -, hlater, heven⟩ :=
    transfer_ends_even himage {} (bootHost 7) (requests_bootHost 7) (by decide) hwrite hroom
  obtain rfl := Option.some.inj (hfetched.symm.trans hfetch)
  refine ⟨hwrite, d, hstep, heven.2 (by decide), ?_⟩
  rw [(hlater _ (Nat.le_refl _)).2.2, Nat.sub_self]

def indexedRequest : Array UInt8 := bootProgram [0x9D, 0x14, 0x40]

/-- What comes after that transfer begins on an odd count. -/
theorem indexed_request_ends_odd :
    Cartridge.ofImage (plainHeader ++ indexedRequest) none {} =
      .ok (plainCartridge indexedRequest,
        [.loaded ⟨1, 0, 0, 0, .horizontal, false, false, false⟩ true]) ∧
    let c := afterOps (bootHost 7) (wire (plainCartridge indexedRequest) {})
    Cpu.writes c.machine = [(Peripherals.transferAddress, 0)] ∧
    ∃ byte d, HostOp.run .step c = .ok byte d ∧
      (∀ k < 517, (afterOps (List.replicate k .step) d).cpu.remaining ≠ 0) ∧
      let e := afterOps (List.replicate 517 .step) d
      e.cpu.fault = none ∧ e.cpu.remaining = 0 ∧ e.cpu.cycles = 525 := by
  have hsize : indexedRequest.size = 0x4000 := size_bootProgram (by decide)
  have himage := ofImage_plain hsize {}
  have hsafe := safe_afterOps (requests_bootHost 7)
    (safe_wire (Cartridge.whole_ofImage himage) {})
  have hruns :
      let c := afterOps (bootHost 7) (wire (plainCartridge indexedRequest) {})
      let r := HostOp.run .step c
      Cpu.writes c.machine = [(Peripherals.transferAddress, 0)] ∧ Visit.refusal? r = none ∧
        (Visit.after r).cpu.fault = none ∧ (Visit.after r).cpu.cycles = 8 ∧
        (Visit.after r).cpu.remaining = 517 ∧
        (Visit.after r).bus.peripherals.transfer = none := by decide +kernel
  obtain ⟨hwrites, haccepted, hfault, hcycles, hremaining, htransfer⟩ := hruns
  obtain ⟨byte, d, hd⟩ := Visit.exists_ok haccepted
  have hafter := safe_after (show HostOp.requests .step = false from rfl) hsafe
  rw [hd] at hfault hcycles hremaining htransfer hafter
  have hwaits : d.Waits 8 517 none := ⟨hafter.whole, hfault, hcycles, hremaining, htransfer⟩
  refine ⟨himage, hwrites, byte, d, hd, fun k hk => ?_, ?_⟩
  · rw [(waits_afterOps hwaits (Nat.le_of_lt hk) (by unfold cycleLimit; omega)).remaining]
    omega
  · have hend := waits_afterOps hwaits (Nat.le_refl 517) (by decide)
    exact ⟨hend.running, hend.remaining, hend.cycles⟩

end Console
end NesConsole
