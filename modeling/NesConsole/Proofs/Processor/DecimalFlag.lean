import NesConsole.Proofs.Processor.BlindInstructions
import NesConsole.Proofs.Processor.StatusBits

/-! The decimal flag has no influence. Two processors that it alone tells apart, over equal
memories, go on alike: it shows in the flags that they push and nowhere else, as long as pushed
flags are taken back as flags alone. -/
namespace NesConsole

/-! ### Cycles -/

namespace Cpu

def withDecimal (d : Bool) (c : Cpu) : Cpu := { c with registers := c.registers.withDecimal d }

def SameButDecimal (c c' : Cpu) : Prop := c.withDecimal false = c'.withDecimal false

namespace SameButDecimal
variable {c c' : Cpu} (h : c.SameButDecimal c')
include h

theorem exists_eq : ∃ d, c' = c.withDecimal d := by
  refine ⟨c'.registers.p.decimal, ?_⟩
  have hback := congrArg (withDecimal c'.registers.p.decimal) h
  exact hback.symm

theorem registers : c.registers.SameButDecimal c'.registers := congrArg Cpu.registers h

theorem withRegisters {r r' : Registers} (hr : r.SameButDecimal r') :
    SameButDecimal { c with registers := r } { c' with registers := r' } := by
  obtain ⟨d, rfl⟩ := h.exists_eq
  exact congrArg (fun r => { c with registers := r }) hr

/-- What does not depend on the decimal flag is the same. -/
theorem view {τ : Type} {f : Cpu → τ} (hf : ∀ d c, f (c.withDecimal d) = f c) : f c' = f c := by
  obtain ⟨d, rfl⟩ := h.exists_eq
  exact hf d c

theorem map {g : Cpu → Cpu}
    (hg : ∀ d c, (g c).withDecimal false = (g (c.withDecimal d)).withDecimal false) :
    (g c).SameButDecimal (g c') := by
  obtain ⟨d, rfl⟩ := h.exists_eq
  exact hg d c

end SameButDecimal

section
variable {α : Type} {n : Nat} {A : α → α → Prop} {place rest : Option Nat}

theorem parallel_access {R : Cpu → Cpu → Prop}
    {x y : EStateM BusError (Wired Cpu (FlatMemory n)) α} (h : Parallel R A place rest x y) :
    Parallel R A place rest (access x) (access y) := by
  have hadds {w : Wired Cpu (FlatMemory n)} {l : List Access} :
      Adds (access x) w l ↔ Adds x w l := by
    unfold Adds stateAfter
    cases hx : x w with
    | ok => rw [access_ok hx]
    | error => rw [access_error hx]
  refine ⟨fun w => ?_, fun {w w' a l} hok hl => ?_, fun {w v held l} hw hl hd => ?_⟩
  · obtain ⟨l, hl⟩ := h.adds w
    exact ⟨l, hadds.2 hl⟩
  · cases hx : x w with
    | ok =>
      rw [access_ok hx] at hok
      exact h.passes hx (hadds.1 hl)
    | error =>
      rw [access_error hx] at hok
      cases hok
  · rcases (h.twins hw (hadds.1 hl) hd).ends with ⟨_, _, _, _, hx, hy, hends⟩ |
      ⟨_, _, _, hx, hy, hends⟩
    · rw [access_ok hx, access_ok hy]
      exact hends
    · rw [access_error hx, access_error hy]
      exact ⟨rfl, hends⟩

theorem parallel_onRegisters {x y : Execution (FlatMemory n) α}
    (h : Parallel Registers.SameButDecimal A place rest x y) :
    Parallel SameButDecimal A place rest (onRegisters x) (onRegisters y) := by
  have hadds {w : Wired Cpu (FlatMemory n)} {l : List Access} :
      Adds (onRegisters x) w l ↔ Adds x ⟨w.chip.registers, w.bus⟩ l := by
    unfold Adds stateAfter
    dsimp only [onRegisters, Wired.onPart]
    cases x ⟨w.chip.registers, w.bus⟩ <;> rfl
  refine ⟨fun w => ?_, fun {w w' a l} hok hl => ?_, fun {w v held l} hw hl hd => ?_⟩
  · obtain ⟨l, hl⟩ := h.adds ⟨w.chip.registers, w.bus⟩
    exact ⟨l, hadds.2 hl⟩
  · dsimp only [onRegisters, Wired.onPart] at hok
    cases hx : x ⟨w.chip.registers, w.bus⟩ with
    | ok =>
      rw [hx] at hok
      cases hok
      exact h.passes hx (hadds.1 hl)
    | error =>
      rw [hx] at hok
      cases hok
  · have hends := h.twins (v := ⟨v.chip.registers, v.bus⟩) ⟨hw.1.registers, hw.2⟩ (hadds.1 hl) hd
    dsimp only [onRegisters, Wired.onPart]
    rcases hends.ends with ⟨_, _, _, _, hx, hy, ha, hr, hbus⟩ | ⟨_, _, _, hx, hy, hr, hbus⟩
    · rw [hx, hy]
      exact ⟨ha, hw.1.withRegisters hr, hbus⟩
    · rw [hx, hy]
      exact ⟨rfl, hw.1.withRegisters hr, hbus⟩

theorem parallel_update {ε : Type} {g : Cpu → Cpu}
    (h : ∀ d c, (g c).withDecimal false = (g (c.withDecimal d)).withDecimal false) :
    Parallel (ε := ε) (n := n) SameButDecimal Eq place place (Wired.update g) (Wired.update g) :=
  Parallel.update fun _ _ hc => hc.map h

theorem parallel_interrupt (vector : UInt16) :
    Parallel (n := n) SameButDecimal Eq (some 2) none (interrupt vector) (interrupt vector) :=
  (parallel_access (parallel_onRegisters (Blind.enterInterrupt vector))).bind fun _ =>
    parallel_update fun _ _ => rfl

theorem parallel_carryOut {i : Instruction}
    (h : i.operation.flagsPlace = none ∨ i.mode = .implied) :
    Parallel (n := n) SameButDecimal Eq i.operation.flagsPlace none (carryOut i) (carryOut i) :=
  (parallel_update fun _ _ => rfl).bind fun _ =>
    (parallel_access (parallel_onRegisters (Blind.instruction h))).bind fun _ =>
      parallel_update fun _ _ => rfl

section
variable {room : Cpu → Prop} [DecidablePred room] {g : Cpu → Cpu}

def counted (room : Cpu → Prop) [DecidablePred room] (g : Cpu → Cpu) :
    EStateM CpuError (Wired Cpu (FlatMemory n)) Unit := fun w =>
  if room w.chip then .ok () ⟨g w.chip, w.bus⟩ else .error .counterFull w

theorem bus_counted (w : Wired Cpu (FlatMemory n)) :
    (stateAfter (counted room g) w).bus = w.bus := by
  unfold stateAfter counted
  by_cases hroom : room w.chip
  · rw [if_pos hroom]
  · rw [if_neg hroom]

theorem twins_counted {held : Nat → Bool} {w v : Wired Cpu (FlatMemory n)}
    (hroom : ∀ d c, room (c.withDecimal d) = room c)
    (hg : ∀ d c, (g c).withDecimal false = (g (c.withDecimal d)).withDecimal false)
    (hw : TwinStates SameButDecimal held w v) :
    TwinOutcomes SameButDecimal Eq held (counted room g w) (counted room g v) := by
  have hsame : room v.chip = room w.chip := hw.1.view hroom
  unfold counted
  by_cases hfits : room w.chip
  · rw [if_pos hfits, if_pos (hsame ▸ hfits)]
    exact ⟨rfl, hw.1.map hg, hw.2⟩
  · rw [if_neg hfits, if_neg (hsame ▸ hfits)]
    exact ⟨rfl, hw⟩

end

theorem tick_eq_counted : tick (β := FlatMemory n) = counted (·.cycles + 1 < cycleLimit)
    fun c => { c with remaining := c.remaining - 1, cycles := c.cycles + 1 } := rfl

theorem stall_eq_counted (cycles : Nat) : stall (β := FlatMemory n) cycles =
    counted (·.remaining + cycles < waitLimit)
      fun c => { c with remaining := c.remaining + cycles } := rfl

theorem bus_tick (w : Wired Cpu (FlatMemory n)) : (stateAfter tick w).bus = w.bus := by
  rw [tick_eq_counted]
  exact bus_counted w

theorem bus_stall (cycles : Nat) (w : Wired Cpu (FlatMemory n)) :
    (stateAfter (stall cycles) w).bus = w.bus := by
  rw [stall_eq_counted]
  exact bus_counted w

theorem twins_tick {held : Nat → Bool} {w v : Wired Cpu (FlatMemory n)}
    (hw : TwinStates SameButDecimal held w v) :
    TwinOutcomes SameButDecimal Eq held (tick w) (tick v) := by
  rw [tick_eq_counted]
  exact twins_counted (fun _ _ => rfl) (fun _ _ => rfl) hw

theorem twins_stall {held : Nat → Bool} {w v : Wired Cpu (FlatMemory n)} (cycles : Nat)
    (hw : TwinStates SameButDecimal held w v) :
    TwinOutcomes SameButDecimal Eq held (stall cycles w) (stall cycles v) := by
  rw [stall_eq_counted]
  exact twins_counted (fun _ _ => rfl) (fun _ _ => rfl) hw

end

section
variable {n : Nat}

/-- How many accesses the processor makes in a cycle that begins in `w` before it pushes or pulls
flags, if it does. -/
def flagsPlace (w : Wired Cpu (FlatMemory n)) : Option Nat :=
  match w.chip.boundary with
  | .nmi | .irq => some 2
  | .instruction => ((fetched? w).bind (·.operation.flagsPlace)).map (· + 1)

theorem implied_of_flagsPlace {w : Wired Cpu (FlatMemory n)} {i : Instruction}
    (hi : fetched? w = some i) : i.operation.flagsPlace = none ∨ i.mode = .implied := by
  obtain ⟨opcode, hopcode⟩ := exists_decode? hi
  exact of_decide_eq_true (Instruction.of_decode? (p := fun i =>
    decide (i.operation.flagsPlace = none ∨ i.mode = .implied)) (by decide) hopcode)

variable {w v : Wired Cpu (FlatMemory n)} {held : Nat → Bool} {l : List Access}

def dispatch (address : UInt16) (opcode : UInt8) :
    EStateM CpuError (Wired Cpu (FlatMemory n)) Unit :=
  match Instruction.decode? opcode with
  | none => throw (.illegalOpcode opcode address)
  | some i => carryOut i

theorem executeNext_eq (w : Wired Cpu (FlatMemory n)) : executeNext w =
    (access (Wired.read w.chip.registers.pc) >>= dispatch w.chip.registers.pc) w := by
  refine (bind_ok rfl).trans (congrArg (fun f => (access _ >>= f) w) (funext fun opcode => ?_))
  unfold dispatch
  cases Instruction.decode? opcode <;> rfl

theorem fetched?_of_access {opcode : UInt8} {w' : Wired Cpu (FlatMemory n)}
    (h : access (Wired.read w.chip.registers.pc) w = .ok opcode w') :
    fetched? w = Instruction.decode? opcode := by
  cases hread : (Bus.read w.chip.registers.pc : EStateM BusError (FlatMemory n) UInt8) w.bus with
  | ok byte b =>
    rw [access_ok (Wired.read_ok (c := w.chip) hread)] at h
    cases h
    exact fetched?_of_read hread
  | error e b =>
    rw [access_error (Wired.read_error (c := w.chip) hread)] at h
    cases h

/-- The opcode is fetched as it is, so the second processor turns to the same instruction. -/
theorem twins_executeNext (hdue : w.chip.boundary = .instruction)
    (hw : TwinStates SameButDecimal held w v) (hl : Adds executeNext w l)
    (hd : Discreet held (marked (flagsPlace w) l)) :
    TwinOutcomes SameButDecimal Eq (heldAfter held (marked (flagsPlace w) l)) (executeNext w)
      (executeNext v) := by
  have hplace : flagsPlace w = ((fetched? w).bind (·.operation.flagsPlace)).map (· + 1) := by
    rw [flagsPlace, hdue]
  generalize hrest : (fetched? w).bind (·.operation.flagsPlace) = rest at hplace
  have hfetch := parallel_access
    (Parallel.read_plain (n := n) (R := SameButDecimal) w.chip.registers.pc rest)
  have hpc : v.chip.registers.pc = w.chip.registers.pc := hw.1.view (f := fun c => c.registers.pc)
    fun _ _ => rfl
  unfold Adds stateAfter at hl
  rw [executeNext_eq] at hl
  rw [executeNext_eq w, executeNext_eq v, hpc]
  rw [hplace] at hd ⊢
  have hdispatch (opcode : UInt8) (w' : Wired Cpu (FlatMemory n))
      (hok : access (Wired.read w.chip.registers.pc) w = .ok opcode w') (opcode' : UInt8)
      (heq : opcode = opcode') : Parallel (n := n) SameButDecimal Eq rest none
        (dispatch w.chip.registers.pc opcode) (dispatch w.chip.registers.pc opcode') := by
    subst heq
    have hfetched := fetched?_of_access hok
    unfold dispatch
    cases hi : Instruction.decode? opcode with
    | none =>
      obtain rfl : none = rest := by rw [← hrest, hfetched, hi]; rfl
      exact .throw _
    | some i =>
      rw [hi] at hfetched
      obtain rfl : i.operation.flagsPlace = rest := by rw [← hrest, hfetched]; rfl
      exact parallel_carryOut (implied_of_flagsPlace hfetched)
  exact hfetch.bind_at (fun _ => rfl) hdispatch hw hl hd

theorem twins_enter (hw : TwinStates SameButDecimal held w v)
    (hl : Adds (enter w.chip.boundary) w l) (hd : Discreet held (marked (flagsPlace w) l)) :
    TwinOutcomes SameButDecimal Eq (heldAfter held (marked (flagsPlace w) l))
      (enter w.chip.boundary w) (enter v.chip.boundary v) := by
  have hplace : flagsPlace w = match w.chip.boundary with
    | .nmi | .irq => some 2
    | .instruction => ((fetched? w).bind (·.operation.flagsPlace)).map (· + 1) := rfl
  have hboundary : v.chip.boundary = w.chip.boundary := hw.1.view fun _ _ => rfl
  rw [hboundary]
  cases hdue : w.chip.boundary with
  | nmi =>
    rw [hdue] at hplace hl
    rw [hplace] at hd ⊢
    have hnmi : Parallel (n := n) SameButDecimal Eq (some 2) none (enter .nmi) (enter .nmi) :=
      (parallel_update fun _ _ => rfl).bind fun _ => parallel_interrupt nmiVector
    exact hnmi.twins hw hl hd
  | irq =>
    rw [hdue] at hplace hl
    rw [hplace] at hd ⊢
    exact (parallel_interrupt irqVector).twins hw hl hd
  | instruction =>
    rw [hdue] at hl
    exact twins_executeNext hdue hw hl hd

/-- A cycle goes beside its twin, refused or not. -/
theorem twins_clock (hw : TwinStates SameButDecimal held w v) (hl : Adds clock w l)
    (hd : Discreet held (marked (flagsPlace w) l)) :
    TwinOutcomes SameButDecimal Eq (heldAfter held (marked (flagsPlace w) l)) (clock w)
      (clock v) := by
  have hfaults : v.chip.fault = w.chip.fault := hw.1.view fun _ _ => rfl
  have hremaining : v.chip.remaining = w.chip.remaining := hw.1.view fun _ _ => rfl
  cases hfault : w.chip.fault with
  | some e =>
    rw [hfault] at hfaults
    have hclock : clock w = .error e w := Stuck.clock (.inl hfault)
    have hnil : l = [] := hl.eq_nil (by rw [stateAfter, hclock])
    rw [hclock, Stuck.clock (.inl hfaults), hnil]
    exact ⟨rfl, hw⟩
  | none =>
    rw [hfault] at hfaults
    by_cases hidle : w.chip.remaining = 0
    · have hentered : Adds (enter w.chip.boundary) w l := by
        refine Eq.trans ?_ hl
        rw [stateAfter, stateAfter, clock_idle hfault hidle]
        cases enter w.chip.boundary w with
        | ok _ u => exact (congrArg FlatMemory.history (bus_tick u)).symm
        | error e u => rfl
      have hends := twins_enter hw hentered hd
      rw [clock_idle hfault hidle, clock_idle hfaults (hremaining.trans hidle)]
      rcases hends.ends with ⟨_, _, _, _, hx, hy, -, hends⟩ | ⟨e, _, _, hx, hy, hchip, hbus⟩
      · rw [hx, hy]
        exact twins_tick hends
      · rw [hx, hy]
        exact ⟨rfl, hchip.map (g := fun c => { c with fault := some e }) fun _ _ => rfl, hbus⟩
    · have hclock := clock_busy hfault hidle
      have hnil : l = [] := hl.eq_nil (by
        rw [stateAfter, hclock]
        exact congrArg FlatMemory.history (bus_tick w))
      rw [hclock, clock_busy hfaults (hremaining ▸ hidle), hnil]
      exact twins_tick hw

/-! ### Runs -/

def added (c : CpuCall) (w : Wired Cpu (FlatMemory n)) : List Access :=
  let history := (stateAfter (call c) w).bus.history
  (history.take (history.length - w.bus.history.length)).reverse

def ledger : List CpuCall → Wired Cpu (FlatMemory n) → List Marked
  | [], _ => []
  | c :: calls, w => marked (flagsPlace w) (added c w) ++ ledger calls (stateAfter (call c) w)

def afterCalls (calls : List CpuCall) (w : Wired Cpu (FlatMemory n)) : Wired Cpu (FlatMemory n) :=
  calls.foldl (fun w c => stateAfter (call c) w) w

def refusal? (c : CpuCall) (w : Wired Cpu (FlatMemory n)) : Option CpuError :=
  match call c w with
  | .ok _ _ => none
  | .error e _ => some e

def refusals : List CpuCall → Wired Cpu (FlatMemory n) → List (Option CpuError)
  | [], _ => []
  | c :: calls, w => refusal? c w :: refusals calls (stateAfter (call c) w)

def Continues (h : List Access) (b : FlatMemory n) : Prop := h <:+ b.history

instance (h : List Access) : BusKeeps (β := FlatMemory n) (Continues h) where
  read address b hb := by
    dsimp only [Bus.read]
    cases b.inHole (FlatMemory.masked n address) <;> exact hb.trans (List.suffix_cons _ _)
  write address data b hb := by
    dsimp only [Bus.write]
    cases b.inHole (FlatMemory.masked n address) <;> exact hb.trans (List.suffix_cons _ _)
  report _ _ hb := hb

variable {c : CpuCall} {calls : List CpuCall}

theorem adds_added (hstep : c ≠ .step) (w : Wired Cpu (FlatMemory n)) :
    Adds (call c) w (added c w) := by
  have hcontinues : w.bus.history <:+ (stateAfter (call c) w).bus.history := by
    cases c with
    | step => exact absurd rfl hstep
    | clock =>
      exact (BusKeeps.clock (P := Continues w.bus.history)).stateAfter (List.suffix_refl _)
    | nmi | setIrq => exact List.suffix_refl _
    | stall cycles =>
      have hbus : w.bus = (stateAfter (call (.stall cycles)) w).bus := (bus_stall cycles w).symm
      exact ⟨[], congrArg FlatMemory.history hbus⟩
  obtain ⟨l, hl⟩ := hcontinues
  unfold Adds added
  rw [← hl]
  simp

/-- Every call goes beside its twin. -/
theorem twins_call (hstep : c ≠ .step) (hw : TwinStates SameButDecimal held w v)
    (hd : Discreet held (marked (flagsPlace w) (added c w))) :
    TwinOutcomes SameButDecimal Eq (heldAfter held (marked (flagsPlace w) (added c w)))
      (call c w) (call c v) := by
  have hadds := adds_added hstep w
  cases c with
  | step => exact absurd rfl hstep
  | clock => exact twins_clock hw hadds hd
  | nmi => exact (parallel_update (g := nmi) fun _ _ => rfl).twins hw hadds hd
  | setIrq asserted =>
    exact (parallel_update (g := setIrq asserted) fun _ _ => rfl).twins hw hadds hd
  | stall cycles =>
    have hnil : added (.stall cycles) w = [] :=
      hadds.eq_nil (congrArg FlatMemory.history (bus_stall cycles w))
    rw [hnil]
    exact twins_stall cycles hw

theorem ledger_append (calls calls' : List CpuCall) (w : Wired Cpu (FlatMemory n)) :
    ledger (calls ++ calls') w = ledger calls w ++ ledger calls' (afterCalls calls w) := by
  induction calls generalizing w with
  | nil => rfl
  | cons c calls ih =>
    have hrest := ih (stateAfter (call c) w)
    simp only [List.cons_append, ledger, hrest, List.append_assoc]
    rfl

theorem twins_calls (hstep : .step ∉ calls) (hw : TwinStates SameButDecimal held w v)
    (hd : Discreet held (ledger calls w)) :
    TwinStates SameButDecimal (heldAfter held (ledger calls w)) (afterCalls calls w)
      (afterCalls calls v) ∧ refusals calls w = refusals calls v := by
  induction calls generalizing held w v with
  | nil => exact ⟨hw, rfl⟩
  | cons c calls ih =>
    rw [List.mem_cons, not_or] at hstep
    rw [ledger] at hd ⊢
    rw [discreet_append] at hd
    -- A refused call leaves twins as well, and the next one goes on from them.
    have hcall := twins_call (Ne.symm hstep.1) hw hd.1
    obtain ⟨hrest, hrefusals⟩ := ih hstep.2 hcall.stateAfter hd.2
    rw [heldAfter_append]
    refine ⟨hrest, List.cons_eq_cons.2 ⟨?_, hrefusals⟩⟩
    unfold refusal?
    rcases hcall.ends with ⟨_, _, _, _, hx, hy, -⟩ | ⟨_, _, _, hx, hy, -⟩ <;> rw [hx, hy]

def pushedFlags (calls : List CpuCall) (w : Wired Cpu (FlatMemory n)) : Nat → Bool :=
  heldAfter (fun _ => false) (ledger calls w)

end

/-- The decimal flag has no influence. Over equal memories two processors that it alone tells apart
stay so, whatever cycles, interrupts and stalls come, as long as pushed flags are read back as the
flags of PLP and RTI alone: after any number of calls they have the same registers, flags but for
the decimal flag, cycles, lines and faults, the same calls have been refused, and the memories are
equal but for bit 3 of flags that were pushed. -/
theorem decimal_flag_has_no_influence {n : Nat} {c c' : Cpu} (b : FlatMemory n)
    {calls : List CpuCall} (hc : c.SameButDecimal c') (hstep : .step ∉ calls)
    (hdiscreet : Discreet (fun _ => false) (ledger calls ⟨c, b⟩)) (k : Nat) :
    let past := calls.take k
    let w := afterCalls past ⟨c, b⟩
    let v := afterCalls past ⟨c', b⟩
    w.chip.SameButDecimal v.chip ∧ refusals past ⟨c, b⟩ = refusals past ⟨c', b⟩ ∧
      ∀ cell < n, Matches (pushedFlags past ⟨c, b⟩ cell) (w.bus.get cell) (v.bus.get cell) := by
  have hsplit := ledger_append (calls.take k) (calls.drop k) ⟨c, b⟩
  rw [List.take_append_drop] at hsplit
  rw [hsplit, discreet_append] at hdiscreet
  have hequal : TwinStates SameButDecimal (fun _ => false) ⟨c, b⟩ ⟨c', b⟩ := ⟨hc, rfl, fun _ => rfl⟩
  obtain ⟨⟨hchip, hbus⟩, hrefusals⟩ :=
    twins_calls (fun h => hstep (List.mem_of_mem_take h)) hequal hdiscreet.1
  refine ⟨hchip, hrefusals, fun cell hcell => ?_⟩
  have hmatches := hbus.cells cell
  rwa [Nat.mod_eq_of_lt hcell] at hmatches

/-- A memory with PHP at address 2 and `opcode` after it. The stack pointer of power-up leads to
address 1. -/
def phpAndThen (opcode : UInt8) : FlatMemory 4 := { cells := #v[0, 0, 0x08, opcode] }

def beforePhp : Cpu := { registers := { pc := 2 } }

/-- Cycles of PHP, and of an instruction of four cycles after it. -/
def twoInstructions : List CpuCall := List.replicate 7 .clock

theorem decimal_flag_has_no_influence_plp :
    let w := afterCalls twoInstructions ⟨beforePhp, phpAndThen 0x28⟩
    let v := afterCalls twoInstructions ⟨beforePhp.withDecimal true, phpAndThen 0x28⟩
    beforePhp.SameButDecimal (beforePhp.withDecimal true) ∧ .step ∉ twoInstructions ∧
      Discreet (fun _ => false) (ledger twoInstructions ⟨beforePhp, phpAndThen 0x28⟩) ∧
      w.chip.SameButDecimal v.chip ∧ w.chip.registers.p.decimal ≠ v.chip.registers.p.decimal ∧
      SameButBit3 (w.bus.get 1) (v.bus.get 1) ∧ w.bus.get 1 ≠ v.bus.get 1 := by
  have hsame : beforePhp.SameButDecimal (beforePhp.withDecimal true) := rfl
  have hstep : CpuCall.step ∉ twoInstructions := fun h => nomatch List.eq_of_mem_replicate h
  have hdiscreet : Discreet (fun _ => false)
      (ledger twoInstructions ⟨beforePhp, phpAndThen 0x28⟩) := by decide +kernel
  obtain ⟨hchip, -, hcells⟩ :=
    decimal_flag_has_no_influence (phpAndThen 0x28) hsame hstep hdiscreet 7
  have hpushed : pushedFlags twoInstructions ⟨beforePhp, phpAndThen 0x28⟩ 1 = true := by
    decide +kernel
  have hcell := hcells 1 (by decide)
  rw [show twoInstructions.take 7 = twoInstructions from rfl, hpushed] at hcell
  exact ⟨hsame, hstep, hdiscreet, hchip, by decide +kernel, hcell, by decide +kernel⟩

-- PLA takes the flags that were pushed for any byte.
example : ¬Discreet (fun _ => false)
    (ledger twoInstructions ⟨beforePhp, phpAndThen 0x68⟩) := by decide +kernel

end Cpu
end NesConsole
