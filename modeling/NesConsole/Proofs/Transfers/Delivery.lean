import NesConsole.Proofs.Reset.Reachable
import NesConsole.Proofs.Transfers.Alignment
import NesConsole.Proofs.Transfers.PageCopy

/-! When a step makes an object transfer. Its cycle and the three dots come first. Then the request
that stands is served once: the page written last, or one that waited from before. The processor
waits for the transfer, and what waits does not reach the bus. -/
namespace NesConsole

namespace MainBus

/-- A transfer leaves no request behind. -/
theorem transfer_of_copied {b b' read : MainBus} {page : UInt8} {bytes : List UInt8}
    (h : Copied page bytes b.released read b') : b'.peripherals.transfer = none := by
  have hkept := leads_block (P := fun b => b.peripherals.transfer = none)
    (fun address => transfer_mainRead address) 256 (wordOf 0 page) b.released rfl
  rw [readBlock_eq_readPage, h.bytes_read] at hkept
  rw [h.beside]
  exact hkept

end MainBus

namespace Console

def requested (c : Console) : Option UInt8 :=
  (Cpu.writes c.machine).foldl Peripherals.asked c.bus.peripherals.transfer

theorem transfer_clock (c : Console) :
    (stateAfter Cpu.clock c.machine).bus.peripherals.transfer = c.requested := by
  have hasks : Recorded.Asks c.bus.peripherals.transfer (Cpu.recorded c.machine) :=
    BusKeeps.recorded rfl
  rw [Recorded.Asks, Cpu.bus_recorded] at hasks
  rw [hasks, requested, Cpu.writes, List.foldl_reverse]

/-! ### Waiting -/

/-- The next cycle only counts, on any bus at all, and its step makes no transfer. -/
def Quiet (c : Console) : Prop :=
  (∀ {β : Type} [CpuBus β] (b : β),
    Cpu.clock (⟨c.cpu, b⟩ : Wired Cpu β) = .ok () (Cpu.waited 1 ⟨c.cpu, b⟩)) ∧
  ∃ d, pass c = .ok () d ∧ step c = .ok () d

theorem quiet_of_waits {c : Console} {n m : Nat} (h : c.Waits n (m + 1) none)
    (hroom : n + 1 < cycleLimit) : c.Quiet := by
  obtain ⟨d, hpass, hstep, -⟩ := step_of_waits h hroom
  exact ⟨clock_of_waits h hroom, d, hpass, hstep⟩

def Rests (c : Console) : Prop :=
  ∀ k < c.cpu.remaining, (afterOps (List.replicate k .step) c).Quiet

theorem rests_of_waits {c : Console} {n m : Nat} (h : c.Waits n m none)
    (hroom : n + m < cycleLimit) : c.Rests := by
  intro k hk
  have hk : k < m := h.remaining ▸ hk
  have hlater := waits_afterOps h (Nat.le_of_lt hk) (by omega)
  obtain ⟨l, hl⟩ : ∃ l, m - k = l + 1 := ⟨m - k - 1, by omega⟩
  rw [hl] at hlater
  exact quiet_of_waits hlater (by omega)

/-! ### Serving -/

/-- From `e` to `d` the page was transferred, with no request left and nothing moved beside the bus
but the cycles to wait. -/
structure Delivered (page : UInt8) (e d : Console) : Prop where
  copied : ∃ bytes read, MainBus.Copied page bytes e.bus.released read d.bus
  taken : d.bus.peripherals.transfer = none
  chip : d.cpu = { e.cpu with
    remaining := e.cpu.remaining + (transferCycles + e.cpu.cycles % 2) }
  frameReady : d.frameReady = e.frameReady
  rests : d.cpu.cycles + d.cpu.remaining < cycleLimit → d.Rests

structure Serves (request : Option UInt8) (e : Console)
    (r : EStateM.Result ConsoleError Console Unit) : Prop where
  idle : request = none → r = .ok () e
  copies (page : UInt8) : request = some page → page ≠ 0x40 →
    e.cpu.remaining + 514 < waitLimit → ∃ d, r = .ok () d ∧ Delivered page e d
  refuses : request = some 0x40 → ∃ d, r = .error (.bus (.unmapped 0x4018)) d ∧
    d.cpu = e.cpu ∧ d.bus.peripherals.transfer = none ∧ d.picture.objects = e.picture.objects

theorem serves_of_waits {e : Console} {n m : Nat} {request : Option UInt8}
    (h : e.Waits n m request) : Serves request e (serveTransfer e) where
  idle hnone := serveTransfer_none (h.transfer.trans hnone)
  copies page hpage hforty hroom := by
    have hasked := h.transfer.trans hpage
    obtain ⟨bytes, read, b, hcopy, hcopied⟩ :=
      MainBus.transferObjects_copies (b := e.bus.released) h.whole hforty
    have htaken := MainBus.transfer_of_copied hcopied
    have hwhole := MainBus.leads_transferObjects page e.bus.released h.whole
    rw [hcopy] at hwhole
    exact ⟨_, serveTransfer_ok hasked hcopy hroom, ⟨bytes, read, hcopied⟩, htaken, rfl, rfl,
      rests_of_waits ⟨hwhole.1, h.running, rfl, rfl, htaken⟩⟩
  refuses hpage := by
    have hasked := h.transfer.trans hpage
    generalize hforty : (0x40 : UInt8) = page at hasked
    obtain ⟨b, hrefused, hobjects⟩ :=
      MainBus.transferObjects_refused (b := e.bus.released) h.whole hforty.symm
    have hcalm := MainBus.calms_transferObjects none page e.bus.released ⟨h.whole, rfl⟩
    rw [hrefused] at hcalm
    exact ⟨_, serveTransfer_error hasked hrefused, rfl, hcalm.2.2, hobjects⟩

/-- A step is refused before its transfer and leaves the request to stand, or serves it. -/
theorem serves_step {c : Console} (h : c.Orderly) : match pass c with
    | .ok _ e => e.bus.peripherals.transfer = c.requested ∧ Serves c.requested e (step c)
    | .error err e => step c = .error err e ∧ e.bus.peripherals.transfer = c.requested := by
  have hrequest := transfer_clock c
  have hkept := BusKeeps.clock (P := MainBus.Orderly) c.machine h
  rw [stateAfter] at hrequest
  cases hclock : Cpu.clock c.machine <;> rw [hclock] at hrequest hkept
  case ok w =>
    obtain ⟨e, hpass, hwaits⟩ := pass_of_clock hclock hkept.whole
    rw [show w.bus.peripherals.transfer = c.requested from hrequest] at hwaits
    rw [hpass]
    refine ⟨hwaits.transfer, ?_⟩
    rw [step_eq_pass, bind_ok hpass]
    exact serves_of_waits hwaits
  case error err w =>
    have hpass : pass c = .error (.cpu err) ⟨w, c.frameReady⟩ := bind_error (onMachine_error hclock)
    rw [hpass]
    refine ⟨?_, hrequest⟩
    rw [step_eq_pass, bind_error hpass]

/-- An instruction that writes a page to `$4014` comes to its transfer, with no more than its own
cycles to wait. -/
theorem pass_of_request {c : Console} (h : c.Orderly) {page : UInt8}
    (hwrite : (Peripherals.transferAddress, page) ∈ Cpu.writes c.machine)
    (hroom : c.cpu.cycles + 1 < cycleLimit) :
    c.requested = some page ∧
      ∃ e, pass c = .ok () e ∧ e.cpu.cycles = c.cpu.cycles + 1 ∧ e.cpu.remaining < 8 := by
  obtain ⟨hsingle, i, w, hfetch, -, hclock, hcycles, hremaining, -⟩ :=
    clock_of_request hwrite hroom
  have hkept := BusKeeps.clock (P := MainBus.Orderly) c.machine h
  rw [hclock] at hkept
  obtain ⟨e, hpass, hwaits⟩ := pass_of_clock hclock hkept.whole
  obtain ⟨opcode, hi⟩ := Cpu.exists_decode? hfetch
  have hlength := Instruction.decode?_cycles hi
  refine ⟨?_, e, hpass, hwaits.cycles.trans hcycles, ?_⟩
  · rw [requested, hsingle]
    rfl
  · rw [hwaits.remaining, hremaining]
    omega

theorem Reachable.afterOps {c : Console} (h : c.Reachable) (ops : List HostOp) :
    (afterOps ops c).Reachable := by
  induction ops generalizing c with
  | nil => exact h
  | cons op ops ih => exact ih (h.visit op)

/-- In every state that a host brings a console to, an object transfer is refused for page `$40`
alone, and then leaves object memory and its address. Any other page is copied as by so many writes
to the data register. A step that gets past its cycle and dots serves the request that stands, if
any, and no more. So it does if its instruction writes a page to `$4014`; then no cycle reaches the
bus until the transfer has been waited for. -/
theorem transfers_deliver_pages {c : Console} (h : c.Reachable) :
    (∀ page ≠ 0x40, ∃ bytes read b, MainBus.transferObjects page c.bus = .ok () b ∧
      MainBus.Copied page bytes c.bus read b) ∧
    (∃ b, MainBus.transferObjects 0x40 c.bus = .error (.unmapped 0x4018) b ∧
      b.picture.objects = c.picture.objects) ∧
    (match pass c with
      | .ok _ e => e.bus.peripherals.transfer = c.requested ∧ Serves c.requested e (step c)
      | .error err e => step c = .error err e ∧ e.bus.peripherals.transfer = c.requested) ∧
    ∀ page, (Peripherals.transferAddress, page) ∈ Cpu.writes c.machine →
      c.cpu.cycles + 525 < cycleLimit → c.requested = some page ∧
        ∃ e, pass c = .ok () e ∧
          (page ≠ 0x40 → ∃ d, step c = .ok () d ∧ Delivered page e d ∧ d.Rests) := by
  have horderly := h.orderly
  have hserves := serves_step horderly
  refine ⟨fun page hpage => MainBus.transferObjects_copies horderly.whole hpage, ?_, hserves,
    fun page hwrite hroom => ?_⟩
  · generalize hforty : (0x40 : UInt8) = page
    exact MainBus.transferObjects_refused horderly.whole hforty.symm
  · obtain ⟨hrequest, e, hpass, hcycles, hshort⟩ := pass_of_request horderly hwrite (by omega)
    rw [hpass] at hserves
    refine ⟨hrequest, e, hpass, fun hpage => ?_⟩
    have hlimit : e.cpu.remaining + 514 < waitLimit := by
      unfold waitLimit
      omega
    obtain ⟨d, hstep, hdelivered⟩ := hserves.2.copies page hrequest hpage hlimit
    refine ⟨d, hstep, hdelivered, hdelivered.rests ?_⟩
    have hparity := Nat.mod_lt e.cpu.cycles (show 0 < 2 by decide)
    rw [hdelivered.chip]
    dsimp only
    unfold transferCycles
    omega

/-- The program that increments `$4014` has page one delivered. -/
theorem transfers_deliver_pages_increment :
    let c := afterOps (bootHost 7) (wire (plainCartridge incrementedRequest) {})
    c.Reachable ∧ ∃ e d, pass c = .ok () e ∧ step c = .ok () d ∧ Delivered 1 e d ∧ d.Rests := by
  have hsize : incrementedRequest.size = 0x4000 := size_bootProgram (by decide)
  have himage := ofImage_plain hsize {}
  have hreachable := (Reachable.wire {} himage).afterOps (bootHost 7)
  have hruns :
      let c := afterOps (bootHost 7) (wire (plainCartridge incrementedRequest) {})
      (Peripherals.transferAddress, 1) ∈ Cpu.writes c.machine ∧
        c.cpu.cycles + 525 < cycleLimit := by decide +kernel
  obtain ⟨hwrite, hroom⟩ := hruns
  obtain ⟨-, e, hpass, hdelivers⟩ :=
    (transfers_deliver_pages hreachable).2.2.2 1 hwrite hroom
  obtain ⟨d, hstep, hdelivered, hrests⟩ := hdelivers (by decide)
  exact ⟨hreachable, e, d, hpass, hstep, hdelivered, hrests⟩

end Console
end NesConsole
