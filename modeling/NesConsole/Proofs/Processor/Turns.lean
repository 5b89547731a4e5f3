import NesConsole.Proofs.AccessTrace
import NesConsole.Proofs.Faults.Clock
import NesConsole.Proofs.Safety.HostRun

/-! Turns of the processor: what is under way passes, then an interrupt entry or an instruction
comes with all of its cycles. On a flat memory without holes a turn is read off the registers, the
interrupt lines and the memory. -/
namespace NesConsole
namespace Cpu
section
variable {β : Type}

def waited (n : Nat) (w : Wired Cpu β) : Wired Cpu β :=
  ⟨{ w.chip with remaining := w.chip.remaining - n, cycles := w.chip.cycles + n }, w.bus⟩

def rested (w : Wired Cpu β) : Wired Cpu β := waited w.chip.remaining w

@[simp] theorem waited_zero (w : Wired Cpu β) : waited 0 w = w := rfl

theorem waited_waited (m n : Nat) (w : Wired Cpu β) :
    waited n (waited m w) = waited (m + n) w := by
  simp only [waited, Nat.sub_sub, Nat.add_assoc]

@[simp] theorem rested_remaining (w : Wired Cpu β) : (rested w).chip.remaining = 0 :=
  Nat.sub_self _

@[simp] theorem boundary_rested (w : Wired Cpu β) :
    (rested w).chip.boundary = w.chip.boundary := rfl

theorem tick_eq (w : Wired Cpu β) : tick w =
    if w.chip.cycles + 1 < cycleLimit then .ok () (waited 1 w) else .error .counterFull w := rfl

theorem stall_eq (cycles : Nat) (w : Wired Cpu β) : stall cycles w =
    if w.chip.remaining + cycles < waitLimit then
      .ok () ⟨{ w.chip with remaining := w.chip.remaining + cycles }, w.bus⟩
    else .error .counterFull w := rfl

variable [CpuBus β]

theorem clock_busy {w : Wired Cpu β} (hfault : w.chip.fault = none)
    (hbusy : w.chip.remaining ≠ 0) : clock w = tick w := by
  rw [clock_eq_clockBy, clockBy, hfault]
  exact if_neg hbusy

theorem clock_idle {w : Wired Cpu β} (hfault : w.chip.fault = none)
    (hidle : w.chip.remaining = 0) : clock w = match enter w.chip.boundary w with
      | .ok _ v => tick v
      | .error e v => .error e (halted e v) := by
  rw [clock_eq_clockBy, clockBy, hfault]
  dsimp only
  rw [if_pos hidle, serve_apply]
  cases enter w.chip.boundary w <;> rfl

/-- Cycles that are waited for pass, as far as they can be counted. -/
theorem clocks_waiting {n : Nat} {w : Wired Cpu β} (hfault : w.chip.fault = none)
    (h : n ≤ w.chip.remaining) :
    clocks n w = .ok () (waited n w) ∨
      cycleLimit ≤ w.chip.cycles + n ∧ ∃ v, clocks n w = .error .counterFull v := by
  induction n generalizing w with
  | zero => exact .inl rfl
  | succ n ih =>
    have hbusy : w.chip.remaining ≠ 0 := by omega
    have hclock := (clock_busy hfault hbusy).trans (tick_eq w)
    by_cases hroom : w.chip.cycles + 1 < cycleLimit
    · rw [if_pos hroom] at hclock
      have hrest : n ≤ (waited 1 w).chip.remaining := Nat.le_sub_of_add_le h
      have hstep : clocks (n + 1) w = clocks n (waited 1 w) := bind_ok hclock
      have hcycles : w.chip.cycles + (n + 1) = (waited 1 w).chip.cycles + n := by
        rw [Nat.add_comm n 1, ← Nat.add_assoc]
        rfl
      rw [hstep, hcycles, Nat.add_comm n 1, ← waited_waited]
      exact ih hfault hrest
    · rw [if_neg hroom] at hclock
      have hfull : cycleLimit ≤ w.chip.cycles + (n + 1) := by omega
      exact .inr ⟨hfull, w, bind_error hclock⟩

/-! What is turned to takes a cycle at least. -/

theorem leads_interrupt_takes (vector : UInt16) : Leads (fun _ : Wired Cpu β => True)
    (interrupt vector) (fun _ w => 1 ≤ w.chip.remaining) fun _ _ => True := by
  have hseven : 1 ≤ interruptCycles := by decide
  exact .bind (M := fun _ _ => True) Yields.any fun _ _ _ => hseven

theorem leads_carryOut_takes {i : Instruction} (hi : 1 ≤ i.cycles) :
    Leads (fun _ : Wired Cpu β => True) (carryOut i) (fun _ w => 1 ≤ w.chip.remaining)
      fun _ _ => True := by
  have hkept : KeepsView (β := β) Cpu.remaining (access (onRegisters i.run)) :=
    keepsView_access (.onPart _ fun _ _ => rfl)
  refine .bind (M := fun _ w => w.chip.remaining = i.cycles) (fun _ _ => rfl) fun _ => ?_
  refine .bind (Leads.mono (hkept _) (fun _ h => h) (fun _ _ h => h) fun _ _ _ => trivial)
    fun extra w hw => ?_
  change 1 ≤ w.chip.remaining + extra
  omega

theorem leads_executeNext_takes : Leads (fun _ : Wired Cpu β => True) executeNext
    (fun _ w => 1 ≤ w.chip.remaining) fun _ _ => True := by
  refine .executeNext (fun _ => Yields.any) (fun _ _ _ _ => trivial) fun _ i hi => ?_
  exact .takeUp Yields.any (fun _ _ _ => trivial)
    (leads_carryOut_takes (Instruction.decode?_cycles hi).1)

theorem leads_enter_takes (entry : Entry) : Leads (fun _ : Wired Cpu β => True) (enter entry)
    (fun _ w => 1 ≤ w.chip.remaining) fun _ _ => True := by
  cases entry with
  | nmi => exact .bind (M := fun _ _ => True) (fun _ h => h) fun _ => leads_interrupt_takes _
  | irq => exact leads_interrupt_takes _
  | instruction => exact leads_executeNext_takes

def turn : EStateM CpuError (Wired Cpu β) Nat := do
  let start ← Wired.look (·.cycles)
  clock
  clocks (← Wired.look (·.remaining))
  return (← Wired.look (·.cycles)) - start

theorem step_eq_turn (w : Wired Cpu β) :
    step w = (clocks w.chip.remaining >>= fun _ => turn) w := rfl

theorem turn_of_clock {w v : Wired Cpu β} (h : clock w = .ok () v) :
    turn w = (clocks v.chip.remaining >>= fun _ => do
      return (← Wired.look (·.cycles)) - w.chip.cycles) v :=
  (bind_ok rfl).trans (bind_ok h)

/-- A turn takes what it turned to with all of its cycles, and is refused where that is or where
the cycles cannot be counted. -/
theorem turn_idle {w : Wired Cpu β} (hfault : w.chip.fault = none)
    (hidle : w.chip.remaining = 0) : match enter w.chip.boundary w with
      | .ok _ v => v.chip.fault = none ∧ v.chip.cycles = w.chip.cycles ∧ 1 ≤ v.chip.remaining ∧
          (turn w = .ok v.chip.remaining (rested v) ∨
            cycleLimit ≤ w.chip.cycles + v.chip.remaining ∧ ∃ u, turn w = .error .counterFull u)
      | .error e v => turn w = .error e (halted e v) := by
  have hclock := clock_idle hfault hidle
  have hkept := keepsView_enter (β := β) (f := fun c => (c.fault, c.cycles))
    ⟨fun _ _ => rfl, fun _ _ => rfl⟩ (fun _ => rfl) w.chip.boundary _ w rfl
  have htakes := leads_enter_takes w.chip.boundary w trivial
  cases henter : enter w.chip.boundary w with
  | error e v =>
    rw [henter] at hclock
    exact (bind_ok rfl).trans (bind_error hclock)
  | ok _ v =>
    rw [henter] at hclock hkept htakes
    obtain ⟨hfault', hcycles⟩ := Prod.mk.inj hkept
    rw [hfault] at hfault'
    refine ⟨hfault', hcycles, htakes, ?_⟩
    dsimp only at hclock
    rw [tick_eq] at hclock
    by_cases hroom : v.chip.cycles + 1 < cycleLimit
    case neg =>
      rw [if_neg hroom] at hclock
      exact .inr ⟨by omega, v, (bind_ok rfl).trans (bind_error hclock)⟩
    rw [if_pos hroom] at hclock
    have hone : 1 + (v.chip.remaining - 1) = v.chip.remaining := by omega
    rw [turn_of_clock hclock]
    rcases clocks_waiting (w := waited 1 v) hfault' (Nat.le_refl _) with hrest | ⟨hfull, u, hrest⟩
    · have hrested : waited (waited 1 v).chip.remaining (waited 1 v) = rested v := by
        rw [waited_waited]
        exact congrArg (waited · v) hone
      have hanswer : (rested v).chip.cycles - w.chip.cycles = v.chip.remaining := by
        rw [← hcycles]
        exact Nat.add_sub_cancel_left _ _
      rw [hrested] at hrest
      refine .inl ((bind_ok hrest).trans ?_)
      rw [← hanswer]
      rfl
    · change cycleLimit ≤ v.chip.cycles + 1 + (v.chip.remaining - 1) at hfull
      exact .inr ⟨by omega, u, bind_error hrest⟩

/-- A step lets what is under way pass, then takes a turn. -/
theorem step_rested {w : Wired Cpu β} (hfault : w.chip.fault = none) :
    step w = turn (rested w) ∨
      cycleLimit ≤ w.chip.cycles + w.chip.remaining ∧ ∃ u, step w = .error .counterFull u := by
  rw [step_eq_turn]
  rcases clocks_waiting hfault (Nat.le_refl _) with hwait | ⟨hfull, u, hwait⟩
  · exact .inl (bind_ok hwait)
  · exact .inr ⟨hfull, u, bind_error hwait⟩

/-- The next turn takes `cost` cycles and ends in `P`, unless it passes the end of the count. -/
@[irreducible] def Turns (w : Wired Cpu β) (cost : Nat) (P : Wired Cpu β → Prop) : Prop :=
  match step w with
  | .ok n v => n = cost ∧ v.chip.remaining = 0 ∧
      v.chip.cycles = w.chip.cycles + w.chip.remaining + cost ∧ P v
  | .error e _ => e = .counterFull ∧ cycleLimit ≤ w.chip.cycles + w.chip.remaining + cost

theorem Turns.exists_ok {w : Wired Cpu β} {cost : Nat} {P : Wired Cpu β → Prop}
    (h : Turns w cost P) (hroom : w.chip.cycles + w.chip.remaining + cost < cycleLimit) :
    ∃ v, step w = .ok cost v ∧ v.chip.remaining = 0 ∧
      v.chip.cycles = w.chip.cycles + w.chip.remaining + cost ∧ P v := by
  unfold Turns at h
  cases hstep : step w with
  | ok n v =>
    rw [hstep] at h
    obtain ⟨rfl, hrest⟩ := h
    exact ⟨v, rfl, hrest⟩
  | error e v =>
    rw [hstep] at h
    exact absurd h.2 (Nat.not_le_of_lt hroom)

end

/-! On a flat memory without holes a turn ends as the program of what is due does. -/

theorem turns_of_logs {w : Wired Cpu (FlatMemory 0x10000)} {c : Cpu} {mem : UInt16 → UInt8}
    {l : List Access} {P : Wired Cpu (FlatMemory 0x10000) → Prop} (hfault : w.chip.fault = none)
    (hholes : w.bus.holes = [])
    (h : Logs (enter w.chip.boundary) (rested w).chip w.bus.content () c mem l)
    (hP : ∀ b, b.content = mem → b.holes = [] → P (rested ⟨c, b⟩)) : Turns w c.remaining P := by
  obtain ⟨b, henter, hmem, hb⟩ := h.ok (b := w.bus) hholes
  unfold Turns
  rcases step_rested hfault with hstep | ⟨hfull, u, hstep⟩
  · have hturn := turn_idle (w := rested w) hfault (rested_remaining w)
    rw [boundary_rested, show rested w = ⟨(rested w).chip, w.bus⟩ from rfl, henter] at hturn
    obtain ⟨-, hcycles, -, hok | ⟨hfull, u, herror⟩⟩ := hturn
    · rw [hstep, show rested w = ⟨(rested w).chip, w.bus⟩ from rfl, hok]
      exact ⟨rfl, rested_remaining _, congrArg (· + c.remaining) hcycles, hP b hmem hb⟩
    · rw [hstep, show rested w = ⟨(rested w).chip, w.bus⟩ from rfl, herror]
      exact ⟨rfl, hfull⟩
  · rw [hstep]
    exact ⟨rfl, by omega⟩

end Cpu
end NesConsole
