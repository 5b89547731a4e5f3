import NesConsole.Proofs.Faults.Jams
import NesConsole.Proofs.Faults.Transfers
import NesConsole.Proofs.Logging.QuietReads
import NesConsole.Proofs.Safety.HostRun

/-! A fault of the console is final. Once a step is refused the processor goes no further until
reset, and every later step or frame is refused alike and changes nothing. One refusal is not of
that kind: the transfer of page `$40` gives its error once and is forgotten. -/
namespace NesConsole

namespace Console

structure Underway (c : Console) : Prop where
  sound : Sound 524 10 c.machine
  running : c.cpu.fault = none

/-- How a step is refused: for good, or by the transfer of a page that is not answered whole. -/
def Ended (e : ConsoleError) (c : Console) : Prop :=
  (e = .bus (.unmapped 0x4018) ∧ c.cpu.fault = none ∧ c.bus.peripherals.transfer = none) ∨
    ∃ f, e = .cpu f ∧ c.cpu.Stuck f

theorem ended_clock : Leads Safe (onMachine Cpu.clock) (fun _ => Underway) Ended := by
  intro ⟨w, ready⟩ hsafe
  have hclock := Cpu.leads_clock w hsafe
  dsimp only [onMachine]
  cases h : Cpu.clock w with
  | ok _ w' =>
    rw [h] at hclock
    exact ⟨hclock, Cpu.running_of_clock h⟩
  | error e w' => exact .inr ⟨e, rfl, Cpu.stuck_of_clock h⟩

theorem underway_heed {c : Console} (h : c.Underway) (tick : Tick) : (c.heed tick).Underway := by
  refine ⟨sound_heed h.sound tick, ?_⟩
  obtain ⟨nmi, complete⟩ := tick
  cases nmi <;> cases complete <;> exact h.running

/-- No dot is refused. -/
theorem underway_stepDot : Leads Underway stepDot (fun _ => Underway) fun _ _ => False := by
  refine .bind (M := fun _ => Underway) ?_ fun tick _ h => underway_heed h tick
  intro ⟨⟨chip, b⟩, ready⟩ h
  obtain ⟨p, hdot⟩ := MainBus.exists_stepDot h.sound.whole
  dsimp only [onBus, Wired.onBus]
  rw [hdot]
  exact ⟨⟨h.sound.whole, h.sound.waits, h.sound.transfer, h.sound.fault⟩, h.running⟩

/-- An access of the bus leaves the processor as it is. -/
theorem leads_onBus_cpu {α : Type} {P : MainBus → Prop} {Q : α → MainBus → Prop}
    {E : BusError → MainBus → Prop} {x : EStateM BusError MainBus α} (h : Leads P x Q E) (k : Cpu) :
    Leads (fun c => P c.bus ∧ c.cpu = k) (onBus x) (fun a c => Q a c.bus ∧ c.cpu = k)
      fun e c => ∃ f, e = .bus f ∧ E f c.bus ∧ c.cpu = k := by
  intro ⟨⟨chip, b⟩, ready⟩ ⟨hp, hk⟩
  have hr := h b hp
  dsimp only [onBus, Wired.onBus]
  cases hx : x b <;> rw [hx] at hr
  case ok => exact ⟨hr, hk⟩
  case error f v => exact ⟨f, rfl, hr, hk⟩

theorem ended_transferObjects (page : UInt8) :
    Leads (fun c => Sound 10 10 c.machine ∧ c.bus.peripherals.transfer = none ∧
        c.cpu.fault = none)
      (onBus (MainBus.transferObjects page))
      (fun _ c => Sound 10 10 c.machine ∧ c.bus.peripherals.transfer = none) Ended := by
  intro c ⟨hsound, hnone, hrunning⟩
  have hcopied := leads_onBus_cpu (((MainBus.leads_transferObjects page).mono (fun _ h => h.1)
    (fun _ _ h => h) fun _ _ h => h).and (MainBus.calms_transferObjects none page)) c.cpu c
    ⟨⟨hsound.whole, hnone⟩, rfl⟩
  have hcalm := leads_calm (MainBus.calms_transferObjects none page) c ⟨hsound, hnone⟩
  cases hx : onBus (MainBus.transferObjects page) c with
  | ok _ d =>
    rw [hx] at hcalm
    exact hcalm
  | error e d =>
    rw [hx] at hcopied
    obtain ⟨f, rfl, ⟨⟨-, -, rfl⟩, -, -, hforgotten⟩, hcpu⟩ := hcopied
    exact .inl ⟨rfl, by rw [hcpu]; exact hrunning, hforgotten⟩

theorem ended_serveTransfer : Leads Underway serveTransfer (fun _ _ => True) Ended := by
  refine .bind (M := fun request c => request.isSome = true → Sound 10 10 c.machine ∧
    c.bus.peripherals.transfer = none ∧ c.cpu.fault = none) ?_ fun request => ?_
  · intro ⟨⟨chip, b⟩, ready⟩ h ht
    exact ⟨⟨h.sound.whole, h.sound.transfer ht, nofun, h.sound.fault⟩, rfl, h.running⟩
  cases request with
  | none => exact .pure fun _ _ => trivial
  | some page =>
    refine .bind ((ended_transferObjects page).mono (fun c h => h rfl) (fun _ _ h => h)
      fun _ _ h => h) fun _ => .bind_get fun c => ?_
    have hcycles : transferCycles + c.cpu.cycles % 2 ≤ 514 := by
      have := Nat.mod_lt c.cpu.cycles (show 0 < 2 by decide)
      unfold transferCycles
      omega
    intro ⟨w, ready⟩ h
    have hstall := Cpu.leads_stall hcycles w h
    dsimp only [onMachine]
    cases hx : Cpu.stall (transferCycles + c.cpu.cycles % 2) w <;> rw [hx] at hstall
    case ok => trivial
    case error => exact hstall.elim

/-- A step that is refused has ended for good, but for the transfer of page `$40`. -/
theorem ended_step : Leads Safe step (fun _ => Safe) Ended := by
  have hdot : Leads Underway stepDot (fun _ => Underway) Ended :=
    underway_stepDot.mono (fun _ h => h) (fun _ _ h => h) fun _ _ h => h.elim
  have hstep : Leads Safe step (fun _ _ => True) Ended :=
    .bind ended_clock fun _ => .bind hdot fun _ => .bind hdot fun _ => .bind hdot fun _ =>
      ended_serveTransfer
  exact (leads_step.and hstep).mono (fun _ h => h) (fun _ _ h => h.1) fun _ _ h => h.2

theorem ended_stepUntilReady (n : Nat) : Leads Safe (stepUntilReady n) (fun _ => Safe) Ended := by
  induction n with
  | zero => exact .pure fun _ h => h
  | succ n ih =>
    intro c hc
    rw [stepUntilReady_succ]
    cases c.frameReady with
    | true => exact hc
    | false => exact Leads.bind ended_step (fun _ => ih) c hc

end Console

namespace HostOp

def advances : HostOp → Bool
  | .step | .runFrame => true
  | _ => false

def holds : HostOp → Bool
  | .hold .. => true
  | _ => false

theorem ended_run {op : HostOp} (h : op.advances = true) :
    Leads Console.Safe op.run (fun _ _ => True) Console.Ended := by
  cases op with
  | step => exact .bind Console.ended_step fun _ => .pure fun _ _ => trivial
  | runFrame =>
    exact .bind (.bind (M := fun _ => Console.Safe) (fun _ hc => hc) fun _ =>
      Console.ended_stepUntilReady _) fun _ => .pure fun _ _ => trivial
  | reset | hold | read | write | readVideo | stepDot | transferObjects => cases h

end HostOp

namespace Console
variable {c : Console} {f : CpuError}

/-- The console but for the buttons held, what was reported, and whether a frame is ready. -/
def core (c : Console) : Cpu × MainBus :=
  let p := c.bus.peripherals
  (c.cpu, { c.bus.unlogged with
    peripherals := { p with first := p.first.hold 0, second := p.second.hold 0 } })

theorem core_hold (pad : Nat) (buttons : UInt8) : (c.hold pad buttons).core = c.core := by
  match pad with
  | 0 | 1 | n + 2 => rfl

/-- A stuck console refuses to be advanced, and stays as it is. -/
theorem refused_of_stuck (h : c.cpu.Stuck f) {op : HostOp} (hop : op.advances = true) :
    ∃ d, op.run c = .error (.cpu f) d ∧ d.machine = c.machine := by
  have hstep {d : Console} (hd : d.machine = c.machine) : step d = .error (.cpu f) d := by
    have hclock : Cpu.clock d.machine = .error f d.machine := by
      rw [hd]
      exact Cpu.Stuck.clock h
    have hmachine : onMachine Cpu.clock d = .error (.cpu f) d := by
      dsimp only [onMachine]
      rw [hclock]
    exact bind_error hmachine
  cases op with
  | step => exact ⟨c, bind_error (hstep rfl), rfl⟩
  | runFrame =>
    have hframe : runFrame c = .error (.cpu f) { c with frameReady := false } := by
      refine (bind_ok rfl).trans ?_
      rw [longestFrame, stepUntilReady_succ]
      exact bind_error (hstep rfl)
    exact ⟨_, bind_error hframe, rfl⟩
  | reset | hold | read | write | readVideo | stepDot | transferObjects => cases hop

def afterOps : List HostOp → Console → Console
  | [], c => c
  | op :: ops, c => afterOps ops (Visit.after (op.run c))

theorem safe_afterOps {ops : List HostOp} (hops : ∀ op ∈ ops, op.requests = false) (h : c.Safe) :
    (afterOps ops c).Safe := by
  induction ops generalizing c with
  | nil => exact h
  | cons op ops ih =>
    exact ih (fun op' h => hops op' (List.mem_cons_of_mem _ h))
      (safe_after (hops op List.mem_cons_self) h)

/-- Nothing that leaves out a reset gets a stuck console on. -/
theorem stuck_afterOps {ops : List HostOp}
    (hops : ∀ op ∈ ops, op.advances = true ∨ op.holds = true) (h : c.cpu.Stuck f) :
    (afterOps ops c).cpu.Stuck f ∧ (afterOps ops c).core = c.core := by
  induction ops generalizing c with
  | nil => exact ⟨h, rfl⟩
  | cons op ops ih =>
    have hrest := fun op' h => hops op' (List.mem_cons_of_mem _ h)
    have hfirst : (Visit.after (op.run c)).cpu.Stuck f ∧
        (Visit.after (op.run c)).core = c.core := by
      rcases hops op List.mem_cons_self with hop | hop
      · obtain ⟨d, hrun, hmachine⟩ := refused_of_stuck h hop
        have hcpu : d.cpu = c.cpu := congrArg Wired.chip hmachine
        rw [hrun]
        refine ⟨by rw [Visit.after, hcpu]; exact h, ?_⟩
        simp only [Visit.after, core, bus, cpu, hmachine]
      · cases op with
        | hold pad buttons => exact ⟨h, core_hold pad buttons⟩
        | reset | step | runFrame | read | write | readVideo | stepDot | transferObjects =>
          cases hop
    obtain ⟨hstuck, hcore⟩ := ih hrest hfirst.1
    exact ⟨hstuck, hcore.trans hfirst.2⟩

/-- On a console around an accepted image, once a step or a frame is refused, every later one until
reset is refused with the same error and leaves everything as it is. The one exception is the
transfer of page `$40`: it does not stop the processor, and its request is gone. -/
theorem faults_are_final {image : Array UInt8} {path : Option String} {disk : Disk}
    {cartridge : Cartridge} {events : List CartridgeEvent}
    (himage : Cartridge.ofImage image path disk = .ok (cartridge, events)) (journal : Journal)
    (before : List HostOp) (hbefore : ∀ op ∈ before, op.requests = false) {op : HostOp}
    (hop : op.advances = true) {e : ConsoleError} {d : Console}
    (h : op.run (afterOps before (wire cartridge journal)) = .error e d) :
    (e = .bus (.unmapped 0x4018) ∧ d.cpu.fault = none ∧ d.bus.peripherals.transfer = none) ∨
    ∀ later : List HostOp, (∀ op ∈ later, op.advances = true ∨ op.holds = true) →
      (afterOps later d).core = d.core ∧
      ∀ op : HostOp, op.advances = true → ∃ d', op.run (afterOps later d) = .error e d' ∧
        d'.machine = (afterOps later d).machine := by
  have hsafe := safe_afterOps hbefore (safe_wire (Cartridge.whole_ofImage himage) journal)
  have hended := HostOp.ended_run hop _ hsafe
  rw [h] at hended
  rcases hended with hforgotten | ⟨f, rfl, hstuck⟩
  · exact .inl hforgotten
  · refine .inr fun later hlater => ?_
    obtain ⟨hlate, hcore⟩ := stuck_afterOps hlater hstuck
    exact ⟨hcore, fun op hop => refused_of_stuck hlate hop⟩

end Console

def Visit.refusal? : Visit → Option ConsoleError
  | .ok _ _ => none
  | .error e _ => some e

theorem Visit.exists_error {r : Visit} {e : ConsoleError} (h : Visit.refusal? r = some e) :
    ∃ d, r = .error e d := by
  cases r with
  | ok => cases h
  | error _ d =>
    cases h
    exact ⟨d, rfl⟩

theorem Visit.exists_ok {r : Visit} (h : Visit.refusal? r = none) : ∃ byte d, r = .ok byte d := by
  cases r with
  | ok byte d => exact ⟨byte, d, rfl⟩
  | error => cases h

def bootProgram (code : List UInt8) : Array UInt8 :=
  ⟨code ++ List.replicate (0x3FFC - code.length) 0 ++ [0x00, 0x80, 0, 0]⟩

theorem size_bootProgram {code : List UInt8} (h : code.length ≤ 0x3FFC) :
    (bootProgram code).size = 0x4000 := by
  simp only [bootProgram, List.size_toArray, List.length_append, List.length_replicate,
    List.length_cons, List.length_nil]
  omega

def bootHost (steps : Nat) : List HostOp := .reset :: List.replicate steps .step

theorem requests_bootHost (steps : Nat) : ∀ op ∈ bootHost steps, op.requests = false := by
  intro op h
  rcases List.mem_cons.1 h with rfl | h
  · rfl
  · rw [List.eq_of_mem_replicate h]
    rfl

namespace Console

/-- An opcode that no instruction has stops the console for good. -/
theorem faults_are_final_illegal : ∃ d,
    HostOp.run .step (afterOps (bootHost 7) (wire (plainCartridge (bootProgram [0x02])) {})) =
      .error (.cpu (.illegalOpcode 0x02 0x8000)) d ∧
    (afterOps [.hold 0 1, .runFrame] d).core = d.core ∧
    ∃ d', HostOp.run .step (afterOps [.hold 0 1, .runFrame] d) =
      .error (.cpu (.illegalOpcode 0x02 0x8000)) d' := by
  have hrefused : Visit.refusal? (HostOp.run .step (afterOps (bootHost 7)
      (wire (plainCartridge (bootProgram [0x02])) {}))) =
        some (.cpu (.illegalOpcode 0x02 0x8000)) := by decide +kernel
  obtain ⟨d, hd⟩ := Visit.exists_error hrefused
  have hsize : (bootProgram [0x02]).size = 0x4000 := size_bootProgram (by decide)
  have himage := ofImage_plain hsize {}
  rcases faults_are_final himage {} (bootHost 7) (requests_bootHost 7) rfl hd with
    ⟨hbus, -⟩ | hfinal
  · cases hbus
  · obtain ⟨hcore, hrun⟩ := hfinal [.hold 0 1, .runFrame] (by simp [HostOp.advances, HostOp.holds])
    obtain ⟨d', hd', -⟩ := hrun .step rfl
    exact ⟨d, hd, hcore, d', hd'⟩

/-- A program that asks for the transfer of page `$40` and loops. -/
def transferProgram : Array UInt8 :=
  bootProgram [0xA9, 0x40, 0x8D, 0x14, 0x40, 0x4C, 0x05, 0x80]

/-- The step that makes the transfer is refused, and the next one is not. -/
theorem refused_transfer_is_forgotten :
    Cartridge.ofImage (plainHeader ++ transferProgram) none {} =
      .ok (plainCartridge transferProgram,
        [.loaded ⟨1, 0, 0, 0, .horizontal, false, false, false⟩ true]) ∧
    ∃ d byte d',
      HostOp.run .step (afterOps (bootHost 9) (wire (plainCartridge transferProgram) {})) =
        .error (.bus (.unmapped 0x4018)) d ∧ HostOp.run .step d = .ok byte d' := by
  have hruns :
      let r := HostOp.run .step (afterOps (bootHost 9) (wire (plainCartridge transferProgram) {}))
      Visit.refusal? r = some (.bus (.unmapped 0x4018)) ∧
        Visit.refusal? (HostOp.run .step (Visit.after r)) = none := by decide +kernel
  obtain ⟨d, hd⟩ := Visit.exists_error hruns.1
  have hnext := hruns.2
  rw [hd] at hnext
  obtain ⟨byte, d', hd'⟩ := Visit.exists_ok hnext
  exact ⟨ofImage_plain (size_bootProgram (by decide)) {}, d, byte, d', hd, hd'⟩

end Console
end NesConsole
