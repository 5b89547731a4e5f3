import NesConsole.Proofs.Faults.Jams
import NesConsole.Proofs.Processor.FarWrites
import NesConsole.Proofs.Processor.StackFrames

/-! Bits 4 and 5 of the status register. Between any two calls the register reads with bit 5 set and
the break bit clear, whatever programs pull and whatever is refused on the way. Copies that
instructions push have both bits set, those that interrupts push bit 5 alone. -/
namespace NesConsole

namespace Status

theorem hasBit_toByte_brk (s : Status) : hasBit s.toByte 4 = s.brk :=
  congrArg brk (ofByte_toByte s)

theorem hasBit_toByte_unused (s : Status) : hasBit s.toByte 5 = s.unused :=
  congrArg unused (ofByte_toByte s)

end Status

namespace Cpu
section
variable {β : Type} [CpuBus β]

/-! ### The register -/

theorem closed_ordinary : Closed (fun _ => True) (fun w : Wired Registers β => Ordinary w.chip.p)
    fun _ w => Ordinary w.chip.p where
  read address := (KeepsView.read (f := Registers.p) address).keeps
  write _ data := (KeepsView.write (f := Registers.p) _ data).keeps
  change hunused hbrk h := ⟨hunused h.unused, hbrk h.brk⟩

/-- What turns to and what waiting and stopping keep, a cycle keeps. -/
theorem keeps_clock {P : Wired Cpu β → Prop} (henter : ∀ entry, Keeps P (enter entry))
    (hwait : ∀ w, P w → P (waited 1 w)) (hhalt : ∀ e w, P w → P (halted e w)) :
    Keeps P (clock (β := β)) := by
  have htick : Keeps P (tick (β := β)) := by
    intro w hw
    rw [tick_eq]
    by_cases hroom : w.chip.cycles + 1 < cycleLimit
    · rw [if_pos hroom]
      exact hwait w hw
    · rw [if_neg hroom]
      exact hw
  intro w hw
  cases hfault : w.chip.fault with
  | some e =>
    rw [Stuck.clock (.inl hfault)]
    exact hw
  | none =>
    by_cases hidle : w.chip.remaining = 0
    · have hentered := henter w.chip.boundary w hw
      rw [clock_idle hfault hidle]
      cases hx : enter w.chip.boundary w <;> rw [hx] at hentered
      case ok => exact htick _ hentered
      case error => exact hhalt _ _ hentered
    · rw [clock_busy hfault hidle]
      exact htick w hw

theorem keeps_clocks {P : Wired Cpu β → Prop} (h : Keeps P (clock (β := β))) (n : Nat) :
    Keeps P (clocks (β := β) n) := by
  induction n with
  | zero => exact .pure ()
  | succ n ih => exact .bind h fun _ => ih

theorem keeps_step {P : Wired Cpu β → Prop} (h : Keeps P (clock (β := β))) :
    Keeps P (step (β := β)) := by
  have hlook {α : Type} (f : Cpu → α) :
      Keeps P (Wired.look f : EStateM CpuError (Wired Cpu β) α) := fun _ hw => hw
  refine .bind (hlook _) fun before => .bind (keeps_clocks h before) fun _ => ?_
  refine .bind (hlook _) fun start => .bind h fun _ => ?_
  refine .bind (hlook _) fun beyond => .bind (keeps_clocks h beyond) fun _ => ?_
  exact .bind (hlook _) fun stop => .pure _

abbrev HoldsBits (w : Wired Cpu β) : Prop := Ordinary w.chip.registers.p

theorem holdsBits_interrupt (vector : UInt16) : Keeps HoldsBits (interrupt (β := β) vector) :=
  .bind (leads_registers (closed_ordinary.enterInterrupt (fun _ => trivial) vector))
    fun _ _ hw => hw

theorem holdsBits_executeNext : Keeps HoldsBits (executeNext (β := β)) := by
  have hquiet {α : Type} {x : EStateM BusError (Wired Cpu β) α} (h : KeepsView Cpu.registers x) :
      Keeps HoldsBits (access x) := (keepsView_access h).keeps (P := fun r => Ordinary r.p)
  refine .executeNext (fun address => hquiet (.read address)) (fun _ _ _ hw => hw) fun _ i _ => ?_
  have hrun : Keeps HoldsBits (access (onRegisters (β := β) i.run)) :=
    leads_registers (closed_ordinary.built (.instruction i))
  refine .takeUp (hquiet (keepsView_traceLine _)) (fun _ _ hw => hw) ?_
  exact Keeps.bind (fun _ hw => hw) fun _ => .bind hrun fun _ _ hw => hw

theorem holdsBits_enter (entry : Entry) : Keeps HoldsBits (enter (β := β) entry) := by
  cases entry with
  | nmi => exact .bind (fun _ hw => hw) fun _ => holdsBits_interrupt _
  | irq => exact holdsBits_interrupt _
  | instruction => exact holdsBits_executeNext

theorem holdsBits_clock : Keeps HoldsBits (clock (β := β)) :=
  keeps_clock holdsBits_enter (fun _ hw => hw) fun _ _ hw => hw

theorem holdsBits_reset : Keeps HoldsBits (reset (β := β)) := by
  have hvector : KeepsView (ε := BusError) (β := β) Cpu.registers (readWord resetVector) :=
    .bind (.read _) fun _ => .bind (.read _) fun _ => .pure _
  exact .bind ((keepsView_access hvector).keeps (P := fun r => Ordinary r.p)) fun _ =>
    .bind (fun _ _ => ⟨rfl, rfl⟩) fun _ _ hw => hw

theorem holdsBits_act (a : CpuAct) : Keeps HoldsBits (act (β := β) a) := by
  cases a with
  | reset => exact holdsBits_reset
  | call c =>
    cases c with
    | clock => exact holdsBits_clock
    | step => exact .bind (keeps_step holdsBits_clock) fun _ => .pure _
    | nmi | setIrq => exact fun _ hw => hw
    | stall cycles =>
      intro w hw
      rw [act, call, stall_eq]
      by_cases hroom : w.chip.remaining + cycles < waitLimit
      · rw [if_pos hroom]
        exact hw
      · rw [if_neg hroom]
        exact hw

theorem holdsBits_afterActs (acts : List CpuAct) {w : Wired Cpu β} (hw : HoldsBits w) :
    HoldsBits (afterActs acts w) := by
  induction acts generalizing w with
  | nil => exact hw
  | cons a acts ih => exact ih ((holdsBits_act a).stateAfter hw)

end
end Cpu

/-! ### Copies that are pushed -/

def pushedAt : UInt8 → List UInt8 → List (UInt16 × UInt8)
  | _, [] => []
  | sp, byte :: bytes => (stackAddress sp, byte) :: pushedAt (sp - 1) bytes

section
variable {ε κ α δ β : Type} {c : κ} {s s' : List (UInt16 × UInt8)} {Q : α → κ → Prop}

/-- From chip `c` the program makes these writes in turn, or the first of them where it is
refused. -/
def Sends (x : EStateM ε (Wired κ (Recorded β)) α) (c : κ) (s : List (UInt16 × UInt8))
    (Q : α → κ → Prop) : Prop :=
  ∀ l, Leads (fun w => w.chip = c ∧ w.bus.writes = l) x
    (fun a w => Q a w.chip ∧ w.bus.writes = s.reverse ++ l)
    fun _ w => ∃ first, first <+: s ∧ w.bus.writes = first.reverse ++ l

namespace Sends

theorem pure {a : α} (h : Q a c) :
    Sends (Pure.pure a : EStateM ε (Wired κ (Recorded β)) α) c [] Q := by
  rintro l w ⟨rfl, hl⟩
  exact ⟨h, hl⟩

theorem look (g : κ → α) : Sends (Wired.look g : EStateM ε (Wired κ (Recorded β)) α) c []
    fun a d => a = g c ∧ d = c := by
  rintro l w ⟨rfl, hl⟩
  exact ⟨⟨rfl, rfl⟩, hl⟩

theorem update (g : κ → κ) : Sends (Wired.update g : EStateM ε (Wired κ (Recorded β)) Unit) c []
    fun _ d => d = g c := by
  rintro l w ⟨rfl, hl⟩
  exact ⟨rfl, hl⟩

theorem bind {x : EStateM ε (Wired κ (Recorded β)) δ}
    {f : δ → EStateM ε (Wired κ (Recorded β)) α} {M : δ → κ → Prop} (hx : Sends x c s M)
    (hf : ∀ d e, M d e → Sends (f d) e s' Q) : Sends (x >>= f) c (s ++ s') Q := by
  intro l
  have hfirst : Leads (fun w => w.chip = c ∧ w.bus.writes = l) x
      (fun d w => M d w.chip ∧ w.bus.writes = s.reverse ++ l)
      fun _ w => ∃ first, first <+: s ++ s' ∧ w.bus.writes = first.reverse ++ l :=
    (hx l).mono (fun _ h => h) (fun _ _ h => h) fun _ _ ⟨first, hpre, hw⟩ =>
      ⟨first, hpre.trans (List.prefix_append _ _), hw⟩
  refine hfirst.bind fun d w ⟨hm, hw⟩ => ?_
  refine (hf d _ hm (s.reverse ++ l)).mono (fun _ h => h) (fun a v ⟨hq, hv⟩ => ⟨hq, ?_⟩)
    (fun _ v ⟨first, hpre, hv⟩ => ?_) w ⟨rfl, hw⟩
  · rw [hv, List.reverse_append, List.append_assoc]
  · refine ⟨s ++ first, (List.prefix_append_right_inj s).2 hpre, ?_⟩
    rw [hv, List.reverse_append, List.append_assoc]

/-- Where nothing is written any more. -/
theorem bind_nil {x : EStateM ε (Wired κ (Recorded β)) δ}
    {f : δ → EStateM ε (Wired κ (Recorded β)) α} {M : δ → κ → Prop} (hx : Sends x c s M)
    (hf : ∀ d e, M d e → Sends (f d) e [] Q) : Sends (x >>= f) c s Q := by
  have h := hx.bind hf
  rwa [List.append_nil] at h

/-- Where the answer and the chip in between are known. -/
theorem next {x : EStateM ε (Wired κ (Recorded β)) δ}
    {f : δ → EStateM ε (Wired κ (Recorded β)) α} {d : δ} {e : κ}
    (hx : Sends x c s fun a k => a = d ∧ k = e) (hf : Sends (f d) e s' Q) :
    Sends (x >>= f) c (s ++ s') Q := by
  refine hx.bind ?_
  rintro _ _ ⟨rfl, rfl⟩
  exact hf

theorem mono {x : EStateM ε (Wired κ (Recorded β)) α} {Q' : α → κ → Prop} (h : Sends x c s Q')
    (hQ : ∀ a d, Q' a d → Q a d) : Sends x c s Q :=
  fun l => (h l).mono (fun _ h => h) (fun _ _ h => ⟨hQ _ _ h.1, h.2⟩) fun _ _ h => h

variable [CpuBus β]

theorem read (address : UInt16) :
    Sends (Wired.read address : EStateM BusError (Wired κ (Recorded β)) UInt8) c []
      fun _ d => d = c := by
  rintro l ⟨_, b, writes⟩ ⟨rfl, rfl⟩
  dsimp only [Wired.read, Wired.onBus, Bus.read, Recorded.recording]
  cases (Bus.read address : EStateM BusError β UInt8) b with
  | ok => exact ⟨rfl, rfl⟩
  | error => exact ⟨[], List.nil_prefix, rfl⟩

theorem write (address : UInt16) (data : UInt8) :
    Sends (Wired.write address data : EStateM BusError (Wired κ (Recorded β)) Unit) c
      [(address, data)] fun _ d => d = c := by
  rintro l ⟨_, b, writes⟩ ⟨rfl, rfl⟩
  dsimp only [Wired.write, Wired.onBus, Bus.write, Recorded.recording]
  cases (Bus.write address data : EStateM BusError β Unit) b with
  | ok => exact ⟨rfl, rfl⟩
  | error => exact ⟨[], List.nil_prefix, rfl⟩

variable {r : Registers}

theorem push (data : UInt8) : Sends (NesConsole.push data : Execution (Recorded β) Unit) r
    [(stackAddress r.sp, data)] fun a d => a = () ∧ d = { r with sp := r.sp - 1 } := by
  have hwrite : Sends (do
      Wired.write (stackAddress r.sp) data
      Wired.update fun r => { r with sp := r.sp - 1 } : Execution (Recorded β) Unit) r
      ([(stackAddress r.sp, data)] ++ []) fun a d => a = () ∧ d = { r with sp := r.sp - 1 } := by
    refine .bind (write _ _) ?_
    rintro _ _ rfl
    exact (update _).mono fun _ _ h => ⟨rfl, h⟩
  exact .next (look _) hwrite

theorem pushWord (word : UInt16) :
    Sends (NesConsole.pushWord word : Execution (Recorded β) Unit) r
      (pushedAt r.sp [highByte word, lowByte word])
      fun a d => a = () ∧ d = { r with sp := r.sp - 1 - 1 } :=
  .next (push _) (push _)

/-- A return address and flags are pushed before a vector is taken. -/
theorem frame (back vector : UInt16) (flags : Registers → UInt8) : Sends (do
      NesConsole.pushWord back
      NesConsole.push (← Wired.look flags)
      Wired.update fun r => { r with p := { r.p with interruptDisable := true } }
      jump (← readWord vector) : Execution (Recorded β) Unit) r
    (pushedAt r.sp [highByte back, lowByte back, flags { r with sp := r.sp - 1 - 1 }])
    fun _ _ => True := by
  have hread {d : Registers} (address : UInt16) :
      Sends (Wired.read address : Execution (Recorded β) UInt8) d [] fun _ _ => True :=
    (read address).mono fun _ _ _ => trivial
  have hword (d : Registers) :
      Sends (readWord vector : Execution (Recorded β) UInt16) d [] fun _ _ => True :=
    (hread _).bind_nil fun _ _ _ => (hread _).bind_nil fun _ _ _ => .pure trivial
  have hjump (d : Registers) : Sends (do jump (← readWord vector) : Execution (Recorded β) Unit) d
      [] fun _ _ => True :=
    (hword d).bind_nil fun _ _ _ => (update _).mono fun _ _ _ => trivial
  refine .next (pushWord back) (.next (look _) (.next (push _) ?_))
  exact .bind (update _) fun _ d _ => hjump d

theorem enterInterrupt (vector : UInt16) :
    Sends (NesConsole.enterInterrupt vector : Execution (Recorded β) Unit) r
      (pushedAt r.sp [highByte r.pc, lowByte r.pc, r.p.pushedByInterrupt]) fun _ _ => True :=
  .next (look _) (frame r.pc vector (·.p.pushedByInterrupt))

/-- An instruction without operand writes what its operation does. -/
theorem implied {op : FlowOp} {cycles : Nat}
    (h : Sends (op.run .implied : Execution (Recorded β) Unit) (r.started (r.pc + 1)) s
      fun _ _ => True) :
    Sends (Instruction.run ⟨.flow op, .implied, cycles⟩ : Execution (Recorded β) Nat) r s
      fun _ _ => True := by
  have hoperation : Sends (Operation.run (.flow op) .implied : Execution (Recorded β) Nat)
      (r.started (r.pc + 1)) s fun _ _ => True := h.bind_nil fun _ _ _ => .pure trivial
  refine .bind (s := []) (update _) ?_
  rintro _ _ rfl
  exact .next (s := []) (.pure ⟨rfl, rfl⟩) (hoperation.bind_nil fun _ _ _ => .pure trivial)

theorem php (cycles : Nat) :
    Sends (Instruction.run ⟨.flow .php, .implied, cycles⟩ : Execution (Recorded β) Nat) r
      (pushedAt r.sp [r.p.pushedBySoftware]) fun _ _ => True :=
  implied (.next (look _) ((push _).mono fun _ _ _ => trivial))

theorem brk (cycles : Nat) :
    Sends (Instruction.run ⟨.flow .brk, .implied, cycles⟩ : Execution (Recorded β) Nat) r
      (pushedAt r.sp [highByte (r.pc + 1 + 1), lowByte (r.pc + 1 + 1), r.p.pushedBySoftware])
      fun _ _ => True :=
  implied (.next (look _) (frame _ irqVector (·.p.pushedBySoftware)))

end Sends
end

namespace Cpu
section
variable {β : Type} [CpuBus β] {s : List (UInt16 × UInt8)} {c : Cpu} {w : Wired Cpu β}
  {bytes : List UInt8}

omit [CpuBus β] in
theorem sends_registers {α : Type} {x : Execution (Recorded β) α}
    (h : Sends x c.registers s fun _ _ => True) :
    Sends (access (onRegisters x)) c s fun _ _ => True := fun l =>
  (leads_registers (h l)).mono (fun _ ⟨hc, hl⟩ => ⟨congrArg registers hc, hl⟩) (fun _ _ h => h)
    fun _ _ h => h

theorem sends_interrupt (vector : UInt16) : Sends (interrupt (β := Recorded β) vector) c
    (pushedAt c.registers.sp [highByte c.registers.pc, lowByte c.registers.pc,
      c.registers.p.pushedByInterrupt]) fun _ _ => True :=
  (sends_registers (.enterInterrupt vector)).bind_nil fun _ _ _ =>
    (Sends.update _).mono fun _ _ _ => trivial

theorem sends_traceLine :
    Sends (access (traceLine (β := Recorded β))) c [] fun _ d => d = c := by
  have hline : Sends (traceLine (β := Recorded β)) c [] fun _ d => d = c := fun l =>
    .traceLine fun address => Sends.read address l
  exact fun l => leads_bus_access (hline l)

theorem sends_takeUp {i : Instruction}
    (h : Sends (i.run : Execution (Recorded β) Nat) c.registers s fun _ _ => True) :
    Sends (takeUp (β := Recorded β) i) c s fun _ _ => True := by
  have hcarry : Sends (carryOut (β := Recorded β) i) c s fun _ _ => True := by
    have hrun : Sends (access (onRegisters (β := Recorded β) i.run))
        { c with remaining := i.cycles } s fun _ _ => True := sends_registers h
    refine .bind (s := []) (.update _) ?_
    rintro _ _ rfl
    exact hrun.bind_nil fun _ _ _ => (Sends.update _).mono fun _ _ _ => trivial
  exact fun l => .takeUp ((sends_traceLine l).mono (fun _ hw => hw) (fun _ _ hw => hw)
    fun _ _ ⟨first, hfirst, hl⟩ => ⟨first, hfirst.trans List.nil_prefix, hl⟩)
    (fun _ _ hw => hw) (hcarry l)

structure Pushes (w : Wired Cpu β) (bytes : List UInt8) : Prop where
  first : writes w <+: pushedAt w.chip.registers.sp bytes
  all {v : Wired Cpu β} : clock w = .ok () v → writes w = pushedAt w.chip.registers.sp bytes

theorem pushes_of_enter (hfault : w.chip.fault = none) (hidle : w.chip.remaining = 0)
    (h : Leads (· = recorder w) (enter w.chip.boundary)
      (fun _ v => v.bus.writes = (pushedAt w.chip.registers.sp bytes).reverse)
      fun _ v => ∃ first, first <+: pushedAt w.chip.registers.sp bytes ∧
        v.bus.writes = first.reverse) : Pushes w bytes := by
  have hrecorded := recorded_idle hfault hidle
  have h := h _ rfl
  cases hx : enter w.chip.boundary (recorder w) with
  | ok _ u =>
    rw [hx] at h hrecorded
    have hall : writes w = pushedAt w.chip.registers.sp bytes := by
      rw [writes, hrecorded, h, List.reverse_reverse]
    exact ⟨hall ▸ List.prefix_rfl, fun _ => hall⟩
  | error e u =>
    rw [hx] at h hrecorded
    obtain ⟨first, hfirst, hwrites⟩ := h
    have hsent : writes w = first := by rw [writes, hrecorded, hwrites, List.reverse_reverse]
    refine ⟨hsent ▸ hfirst, fun hclock => ?_⟩
    -- The recording bus refuses what the bus refuses.
    have hsame := Agree.clock (R := Recorded.Erases (β := β)) (recorder w) w ⟨rfl, rfl⟩
    have hrefused := clock_idle (w := recorder w) hfault hidle
    rw [show (recorder w).chip.boundary = w.chip.boundary from rfl, hx] at hrefused
    rw [hrefused, hclock] at hsame
    exact hsame.elim

theorem pushes_of_sends (hfault : w.chip.fault = none) (hidle : w.chip.remaining = 0)
    (h : Sends (enter (β := Recorded β) w.chip.boundary) w.chip
      (pushedAt w.chip.registers.sp bytes) fun _ _ => True) : Pushes w bytes := by
  refine pushes_of_enter hfault hidle ((h []).mono (fun _ hr => ?_) (fun _ _ hr => ?_)
    fun _ _ ⟨first, hfirst, hr⟩ => ⟨first, hfirst, ?_⟩)
  · rw [hr]
    exact ⟨rfl, rfl⟩
  · rw [hr.2, List.append_nil]
  · rw [hr, List.append_nil]

/-- An instruction that is fetched writes what it sends from its registers. -/
theorem pushes_of_fetched {i : Instruction} (hfault : w.chip.fault = none)
    (hidle : w.chip.remaining = 0) (hdue : w.chip.boundary = .instruction)
    (hi : fetched? w = some i)
    (h : Sends (i.run : Execution (Recorded β) Nat) w.chip.registers
      (pushedAt w.chip.registers.sp bytes) fun _ _ => True) : Pushes w bytes := by
  obtain ⟨c, b⟩ := w
  refine pushes_of_enter hfault hidle ?_
  rw [hdue]
  rintro _ rfl
  have hquiet := Sends.read (β := β) (c := c) c.registers.pc [] ⟨c, ⟨b, []⟩⟩ ⟨rfl, rfl⟩
  dsimp only [enter, recorder]
  cases hread : (Bus.read c.registers.pc : EStateM BusError (Recorded β) UInt8) ⟨b, []⟩ with
  | error e b' =>
    rw [Wired.read_error hread] at hquiet
    rw [executeNext_unread hread]
    obtain ⟨first, hfirst, hwrites⟩ := hquiet
    exact ⟨first, hfirst.trans List.nil_prefix, by rw [hwrites, List.append_nil]⟩
  | ok opcode b' =>
    rw [Wired.read_ok hread] at hquiet
    have hopcode : Instruction.decode? opcode = some i := by
      rw [← fetched?_of_read (w := recorder ⟨c, b⟩) hread, fetched?_recorder, hi]
    have hsent := sends_takeUp h [] ⟨c, b'⟩ ⟨rfl, hquiet.2⟩
    rw [executeNext_read hread, hopcode]
    dsimp only
    cases hx : takeUp i (⟨c, b'⟩ : Wired Cpu (Recorded β)) <;> rw [hx] at hsent
    case ok => exact hsent.2.trans (List.append_nil _)
    case error =>
      obtain ⟨first, hfirst, hwrites⟩ := hsent
      exact ⟨first, hfirst, hwrites.trans (List.append_nil _)⟩

/-! ### All runs -/

structure PushesFlags (w : Wired Cpu β) : Prop where
  interrupt : w.chip.fault = none → w.chip.remaining = 0 → w.chip.boundary ≠ .instruction →
    ∃ flags, hasBit flags 4 = false ∧ hasBit flags 5 = true ∧
      Pushes w [highByte w.chip.registers.pc, lowByte w.chip.registers.pc, flags]
  php {i : Instruction} : w.chip.fault = none → w.chip.remaining = 0 →
    w.chip.boundary = .instruction → fetched? w = some i → i.operation = .flow .php →
    ∃ flags, hasBit flags 4 = true ∧ hasBit flags 5 = true ∧ Pushes w [flags]
  brk {i : Instruction} : w.chip.fault = none → w.chip.remaining = 0 →
    w.chip.boundary = .instruction → fetched? w = some i → i.operation = .flow .brk →
    ∃ flags, hasBit flags 4 = true ∧ hasBit flags 5 = true ∧
      Pushes w [highByte (w.chip.registers.pc + 2), lowByte (w.chip.registers.pc + 2), flags]

/-- Instructions that push flags have no operand. -/
theorem implied_of_pushed {w : Wired Cpu β} {i : Instruction} (hi : fetched? w = some i)
    (hop : i.operation = .flow .php ∨ i.operation = .flow .brk) : i.mode = .implied := by
  obtain ⟨opcode, hopcode⟩ := exists_decode? hi
  exact of_decide_eq_true (Instruction.of_decode? (p := fun i => decide (i.operation = .flow .php ∨
    i.operation = .flow .brk → i.mode = .implied)) (by decide) hopcode) hop

theorem pushesFlags (w : Wired Cpu β) : PushesFlags w where
  interrupt hfault hidle hdue := by
    refine ⟨w.chip.registers.p.pushedByInterrupt, Status.hasBit_toByte_brk _,
      Status.hasBit_toByte_unused _, pushes_of_sends hfault hidle ?_⟩
    cases hentry : w.chip.boundary with
    | nmi =>
      refine .bind (s := []) (.update _) ?_
      rintro _ _ rfl
      exact sends_interrupt nmiVector
    | irq => exact sends_interrupt irqVector
    | instruction => exact absurd hentry hdue
  php {i} hfault hidle hdue hi hop := by
    refine ⟨w.chip.registers.p.pushedBySoftware, Status.hasBit_toByte_brk _,
      Status.hasBit_toByte_unused _, pushes_of_fetched hfault hidle hdue hi ?_⟩
    obtain ⟨operation, mode, cycles⟩ := i
    obtain rfl : operation = .flow .php := hop
    obtain rfl : mode = .implied := implied_of_pushed hi (.inl rfl)
    exact .php cycles
  brk {i} hfault hidle hdue hi hop := by
    refine ⟨w.chip.registers.p.pushedBySoftware, Status.hasBit_toByte_brk _,
      Status.hasBit_toByte_unused _, pushes_of_fetched hfault hidle hdue hi ?_⟩
    obtain ⟨operation, mode, cycles⟩ := i
    obtain rfl : operation = .flow .brk := hop
    obtain rfl : mode = .implied := implied_of_pushed hi (.inr rfl)
    have hback : w.chip.registers.pc + 2 = w.chip.registers.pc + 1 + 1 :=
      (UInt16.add_assoc _ 1 1).symm
    rw [hback]
    exact .brk cycles

end

/-- Whatever is done with a processor from its power-up on, and whatever is refused, bit 5 of its
flags reads set and the break bit clear. In every state the flags that PHP and BRK push have both
bits set, those that an interrupt pushes have bit 5 alone. -/
theorem flag_bits_hold {β : Type} [CpuBus β] (b : β) (acts : List CpuAct) :
    hasBit (afterActs acts ⟨{}, b⟩).chip.registers.p.toByte 5 = true ∧
      hasBit (afterActs acts ⟨{}, b⟩).chip.registers.p.toByte 4 = false ∧
      ∀ w : Wired Cpu β, PushesFlags w := by
  have hbits : HoldsBits (afterActs acts ⟨{}, b⟩) := holdsBits_afterActs acts ⟨rfl, rfl⟩
  rw [Status.hasBit_toByte_unused, Status.hasBit_toByte_brk]
  exact ⟨hbits.unused, hbits.brk, pushesFlags⟩

def atPhp : Wired Cpu (FlatMemory 4) :=
  ⟨{ registers := { pc := 2 } }, { cells := #v[0, 0, 0x08, 0] }⟩

theorem flag_bits_hold_php : ∃ flags, hasBit flags 4 = true ∧ hasBit flags 5 = true ∧
    writes atPhp = [(0x01FD, flags)] := by
  obtain ⟨flags, hbrk, hunused, hpushed⟩ :=
    ((flag_bits_hold atPhp.bus []).2.2 atPhp).php rfl rfl rfl rfl rfl
  exact ⟨flags, hbrk, hunused, hpushed.all rfl⟩

end Cpu
end NesConsole
