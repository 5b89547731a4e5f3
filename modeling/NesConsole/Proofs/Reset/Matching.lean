import NesConsole.Proofs.Faults.Finality
import NesConsole.Proofs.Reset.Redraw

/-! Two consoles since their resets. What the processor, the dots and the object transfers do next
depends on neither the cycles and frames counted before the reset, but for the parity of the cycles,
nor on the picture, so the two go on alike until one can count no further. -/
namespace NesConsole

section
variable {ε σ τ α δ : Type} {full : ε} {P Q E : σ → τ → Prop}

/-- Equal outcomes, in `Q` after success and in `E` after a refusal, unless one is the refusal
`full`. -/
inductive Matching (full : ε) (Q E : σ → τ → Prop) :
    EStateM.Result ε σ α → EStateM.Result ε τ α → Prop
  | ok {a : α} {s : σ} {t : τ} (h : Q s t) : Matching full Q E (.ok a s) (.ok a t)
  | error {e : ε} {s : σ} {t : τ} (h : E s t) : Matching full Q E (.error e s) (.error e t)
  | left {s : σ} {r : EStateM.Result ε τ α} : Matching full Q E (.error full s) r
  | right {r : EStateM.Result ε σ α} {t : τ} : Matching full Q E r (.error full t)

namespace Matching

theorem of_alike {r : EStateM.Result ε σ α} {r' : EStateM.Result ε τ α} (h : Alike Q r r') :
    Matching full Q Q r r' := by
  cases r <;> cases r'
  case ok.ok =>
    obtain ⟨rfl, hq⟩ := h
    exact .ok hq
  case error.error =>
    obtain ⟨rfl, hq⟩ := h
    exact .error hq
  all_goals exact h.elim

/-- Where neither is that refusal. -/
theorem alike {r : EStateM.Result ε σ α} {r' : EStateM.Result ε τ α} (h : Matching full Q Q r r')
    (hleft : ∀ s, r ≠ .error full s) (hright : ∀ t, r' ≠ .error full t) : Alike Q r r' := by
  cases h with
  | ok h => exact ⟨rfl, h⟩
  | error h => exact ⟨rfl, h⟩
  | left => exact absurd rfl (hleft _)
  | right => exact absurd rfl (hright _)

theorem mono {r : EStateM.Result ε σ α} {r' : EStateM.Result ε τ α} {F : σ → τ → Prop}
    (h : Matching full P F r r') (hQ : ∀ s t, P s t → Q s t) (hE : ∀ s t, F s t → E s t) :
    Matching full Q E r r' := by
  cases h with
  | ok h => exact .ok (hQ _ _ h)
  | error h => exact .error (hE _ _ h)
  | left => exact .left
  | right => exact .right

theorem bind {x : EStateM ε σ δ} {y : EStateM ε τ δ} {f : δ → EStateM ε σ α}
    {g : δ → EStateM ε τ α} {s : σ} {t : τ} (h : Matching full P E (x s) (y t))
    (hf : ∀ d s t, P s t → Matching full Q E (f d s) (g d t)) :
    Matching full Q E ((x >>= f) s) ((y >>= g) t) := by
  generalize hx : x s = r at h
  generalize hy : y t = r' at h
  cases h with
  | ok h =>
    rw [bind_ok hx, bind_ok hy]
    exact hf _ _ _ h
  | error h =>
    rw [bind_error hx, bind_error hy]
    exact .error h
  | left =>
    rw [bind_error hx]
    exact .left
  | right =>
    rw [bind_error hy]
    exact .right

end Matching
end

/-! ### The buses -/

namespace VideoBus

def Matches (v v' : VideoBus) : Prop :=
  (∃ journal, v' = v.withJournal journal ∧ journal.keeps .trace = v.journal.keeps .trace) ∧
    v.cartridge.board.Whole

theorem Matches.cartridge {v v' : VideoBus} (h : v.Matches v') : v'.cartridge = v.cartridge := by
  obtain ⟨⟨journal, rfl, -⟩, -⟩ := h
  rfl

theorem Matches.note {v v' : VideoBus} (h : v.Matches v') (es es' : List Event) :
    (v.note es).Matches (v'.note es') := by
  obtain ⟨⟨journal, rfl, htrace⟩, hwhole⟩ := h
  refine ⟨⟨journal.noteAll es', rfl, ?_⟩, hwhole⟩
  exact (Journal.keeps_noteAll ..).trans (htrace.trans (Journal.keeps_noteAll ..).symm)

theorem matches_write (address : UInt16) (data : UInt8) :
    Agree Matches (VideoBus.write address data) (VideoBus.write address data) := by
  rintro v _ ⟨⟨journal, rfl, htrace⟩, hwhole⟩
  have hlt : (address % 0x4000).toNat < 0x4000 := by
    rw [UInt16.toNat_mod]
    exact Nat.mod_lt _ (by decide)
  obtain ⟨device, hdevice⟩ := videoMap_owner _ hlt
  unfold VideoBus.write withJournal
  dsimp only
  rw [hdevice]
  cases device with
  | patterns =>
    obtain ⟨b, -, hb, hpattern⟩ := Cartridge.exists_writePattern hwhole (address % 0x4000) data
    dsimp only
    rw [hpattern]
    exact ⟨rfl, Matches.note (v := { v with cartridge := { v.cartridge with board := b } })
      ⟨⟨journal, rfl, htrace⟩, hb⟩ _ _⟩
  | nameTables | nameTablesAgain | palette => exact ⟨rfl, ⟨journal, rfl, htrace⟩, hwhole⟩

instance : BusAgreement Matches where
  read address := by
    rintro v _ ⟨⟨journal, rfl, htrace⟩, hwhole⟩
    have hwhole' : (v.withJournal journal).cartridge.board.Whole := hwhole
    obtain ⟨_, hread, he⟩ := steady_of_whole hwhole address v rfl
    obtain ⟨_, hread', he'⟩ := steady_of_whole hwhole' address _ rfl
    rw [hread, hread', he, he']
    exact ⟨rfl, ⟨journal, rfl, htrace⟩, hwhole⟩
  write := matches_write

end VideoBus

namespace MainBus

/-- Two buses `n` dots after resets that found `f` and `g` frames counted. -/
structure Matches (f g n : Nat) (b b' : MainBus) : Prop where
  ram : b'.ram = b.ram
  peripherals : b'.peripherals = b.peripherals
  video : b.video.Matches b'.video
  picture : b.picture.Redrawn f g n b'.picture

section
variable {α : Type} {f g n : Nat} {b b' : MainBus}

theorem Matches.note (h : Matches f g n b b') (es es' : List Event) :
    Matches f g n (b.note es) (b'.note es') :=
  ⟨h.ram, h.peripherals, h.video.note es es', h.picture⟩

theorem Matches.tracing (h : Matches f g n b b') : CpuBus.tracing b' = CpuBus.tracing b := by
  obtain ⟨⟨journal, hvideo, htrace⟩, -⟩ := h.video
  change b'.video.journal.keeps .trace = b.video.journal.keeps .trace
  rw [hvideo]
  exact htrace

theorem matches_onPicture {x : EStateM BusError (Wired Ppu VideoBus) α}
    (hx : ∀ frames picture, Agree (SameBut (Ppu.remount frames picture) VideoBus.Matches) x x)
    (htouch : Ppu.Touches Ppu.Timing.Touch x) (hpicture : KeepsView (·.picture) x) :
    Agree (Matches f g n) (onPicture x) (onPicture x) := by
  rintro ⟨ram, peripherals, v, p⟩ ⟨_, _, v', q⟩ ⟨rfl, rfl, hv, hp⟩
  have hr := hx q.frames q.picture ⟨p, v⟩ ⟨q, v'⟩ ⟨hp.rest, hv⟩
  have ht := htouch p.timing ⟨p, v⟩ rfl
  have hs := hpicture p.picture ⟨p, v⟩ rfl
  dsimp only [onPicture]
  cases hl : x ⟨p, v⟩ <;> cases hd : x ⟨q, v'⟩ <;> rw [hl, hd] at hr <;> rw [hl] at ht hs
  case ok.ok a w _ u =>
    obtain ⟨rfl, hchip, hbus⟩ := hr
    exact ⟨rfl, rfl, rfl, hbus, hp.touched hchip ht hs⟩
  case error.error e w _ u =>
    obtain ⟨rfl, hchip, hbus⟩ := hr
    exact ⟨rfl, rfl, rfl, hbus, hp.touched hchip ht hs⟩
  all_goals exact hr.elim

theorem matches_read (address : UInt16) :
    Agree (Matches f g n) (MainBus.read address) (MainBus.read address) := by
  intro b b' h
  have htouch : Ppu.Touches (β := VideoBus) Ppu.Timing.Touch (Ppu.readRegister address) :=
    fun s => (Ppu.touches_readRegister address s).mono (fun _ hw => hw)
      (fun _ _ ht => ht.toTouch) fun _ _ ht => ht.toTouch
  have hpicture := matches_onPicture (f := f) (g := g) (n := n)
    (fun _ _ => Ppu.remount_readRegister _ _ address) htouch
    (Ppu.keepsView_readRegister (fun _ _ => rfl) (fun _ _ => rfl) fun _ _ => rfl) b b' h
  unfold MainBus.read
  cases mainMap.owner? address with
  | none => exact ⟨rfl, h⟩
  | some device =>
    cases device with
    | ram | ramAgain =>
      dsimp only
      rw [h.ram]
      exact ⟨rfl, h⟩
    | picture => exact hpicture
    | peripherals =>
      dsimp only
      rw [h.peripherals]
      exact ⟨rfl, h.ram, rfl, h.video, h.picture⟩
    | cartridge =>
      obtain ⟨byte, hbyte⟩ := Cartridge.exists_read h.video.2 address
      dsimp only
      rw [h.video.cartridge, hbyte]
      exact ⟨rfl, h⟩

theorem matches_write (address : UInt16) (data : UInt8) :
    Agree (Matches f g n) (MainBus.write address data) (MainBus.write address data) := by
  intro b b' h
  have hpicture := matches_onPicture (f := f) (g := g) (n := n)
    (fun _ _ => Ppu.remount_writeRegister _ _ address data)
    (Ppu.touches_writeRegister address data)
    ((Ppu.keepsView_writeRegister address data).map fun s => s.2.2.1) b b' h
  unfold MainBus.write
  cases mainMap.owner? address with
  | none => exact ⟨rfl, h⟩
  | some device =>
    cases device with
    | ram | ramAgain =>
      dsimp only
      rw [h.ram]
      exact ⟨rfl, rfl, h.peripherals, h.video, h.picture⟩
    | picture => exact hpicture
    | peripherals =>
      dsimp only
      rw [h.peripherals]
      refine ⟨rfl, Matches.note ?_ _ _⟩
      exact ⟨h.ram, rfl, h.video, h.picture⟩
    | cartridge =>
      refine ⟨rfl, h.ram, h.peripherals, ?_, h.picture⟩
      obtain ⟨⟨journal, hvideo, htrace⟩, hwhole⟩ := h.video
      unfold writeCartridge
      rw [hvideo]
      exact VideoBus.Matches.note (v := { b.video with
          cartridge := b.video.cartridge.write address data
          nameTables := b.video.nameTables.setMirroring
            (b.video.cartridge.write address data).mirroring })
        ⟨⟨journal, rfl, htrace⟩, Cartridge.whole_write hwhole address data⟩ _ _

instance : ReportAgreement (Matches f g n) where
  read := matches_read
  write := matches_write
  report _ _ _ h := h.note _ _

theorem matches_readBlock (count : Nat) (address : UInt16) :
    Agree (Matches f g n) (readBlock address count) (readBlock address count) := by
  induction count generalizing address with
  | zero => exact .pure []
  | succ count ih => exact .bind (matches_read address) fun _ => .bind (ih _) fun _ => .pure _

theorem matches_writeObjects (h : Matches f g n b b') (block : ObjectMemory) :
    Matches f g n { b with picture := b.picture.writeObjects block }
      { b' with picture := b'.picture.writeObjects block } := by
  have hrest (frames : Nat) (picture : Vector UInt32 (256 * 240)) (p : Ppu) :
      (p.remount frames picture).writeObjects block =
        (p.writeObjects block).remount frames picture := by
    simp only [Ppu.writeObjects, Ppu.remount]
  have hpicture : (b.picture.writeObjects block).picture = b.picture.picture := by
    simp only [Ppu.writeObjects]
  refine ⟨h.ram, h.peripherals, h.video, h.picture.touched ?_ ?_ hpicture⟩
  · exact (congrArg (Ppu.writeObjects block) h.picture.rest).trans (hrest _ _ _)
  · exact (Ppu.Timing.ReadTouch.of_eq (Ppu.timing_writeObjects block b.picture)).toTouch

theorem matches_transferObjects (page : UInt8) :
    Agree (Matches f g n) (transferObjects page) (transferObjects page) := by
  have hblock := matches_readBlock (f := f) (g := g) (n := n) 256 (wordOf 0 page)
  unfold transferObjects
  refine .bind (fun b b' h => ⟨rfl, h.note _ _⟩) fun _ => .bind hblock fun bytes => ?_
  exact fun b b' h => ⟨rfl, matches_writeObjects h _⟩

theorem matches_takeTransfer : Agree (Matches f g n) takeTransfer takeTransfer := by
  intro b b' h
  refine ⟨congrArg Peripherals.transfer h.peripherals.symm, h.ram, ?_, h.video, h.picture⟩
  exact congrArg (fun p : Peripherals => { p with transfer := none }) h.peripherals

/-- Neither dot is refused, and both report the same. -/
theorem Matches.stepDot (h : Matches f g n b b') : ∃ c c',
    MainBus.stepDot b = .ok b.picture.tick c ∧ MainBus.stepDot b' = .ok b.picture.tick c' ∧
      Matches f g (n + 1) c c' := by
  obtain ⟨ram, peripherals, v, p⟩ := b
  obtain ⟨ram', peripherals', v', q⟩ := b'
  obtain ⟨hram, hperipherals, ⟨⟨journal, hv, htrace⟩, hwhole⟩, hp⟩ := h
  obtain rfl : v' = v.withJournal journal := hv
  have hwhole' : (v.withJournal journal).cartridge.board.Whole := hwhole
  obtain ⟨_, hstep, he⟩ := Ppu.does_step (VideoBus.steady_of_whole hwhole) p v rfl
  obtain ⟨_, hstep', he'⟩ := Ppu.does_step (VideoBus.steady_of_whole hwhole') q _ rfl
  rw [he] at hstep
  rw [he'] at hstep'
  have htiming : (p.stepFrom v.byteAt).timing = p.timing.next :=
    (Ppu.step_timing hstep).2.trans (Ppu.timing_advance_beginDot p)
  rw [show q.tick = p.tick from hp.tick] at hstep'
  refine ⟨⟨ram, peripherals, v, p.stepFrom v.byteAt⟩,
    ⟨ram', peripherals', v.withJournal journal, q.stepFrom v.byteAt⟩, ?_, ?_,
    hram, hperipherals, ⟨⟨journal, rfl, htrace⟩, hwhole⟩, hp.dot v.byteAt htiming⟩
  · dsimp only [MainBus.stepDot, onPicture]
    rw [hstep]
  · dsimp only [MainBus.stepDot, onPicture]
    rw [hstep']
    rfl

end
end MainBus

/-! ### The processor -/

structure Tally where
  cycles : Nat
  frames : Nat

namespace Cpu

def recount (cycles : Nat) (c : Cpu) : Cpu := { c with cycles := cycles }

section
variable {α : Type} {cycles f g n : Nat}

abbrev Beside (cycles f g n : Nat) : Wired Cpu MainBus → Wired Cpu MainBus → Prop :=
  SameBut (recount cycles) (MainBus.Matches f g n)

theorem beside_access {x : EStateM BusError (Wired Cpu MainBus) α}
    (h : Agree (Beside cycles f g n) x x) : Agree (Beside cycles f g n) (access x) (access x) := by
  intro w v hw
  have hr := h w v hw
  dsimp only [access, EStateM.adaptExcept]
  cases hs : x w <;> cases ht : x v <;> rw [hs, ht] at hr
  case ok.ok => exact hr
  case error.error => exact ⟨congrArg _ hr.1, hr.2⟩
  all_goals exact hr.elim

theorem beside_report (event event' : CpuEvent) {ε : Type} :
    Agree (ε := ε) (Beside cycles f g n) (report event) (report event') :=
  fun _ _ h => ⟨rfl, h.1, h.2.note _ _⟩

theorem beside_interrupt (vector : UInt16) :
    Agree (Beside cycles f g n) (interrupt vector) (interrupt vector) :=
  .bind (beside_access (SameBut.onPart (.enterInterrupt vector) (fun _ => rfl) fun _ _ => rfl))
    fun _ => SameBut.update fun _ => rfl

theorem beside_carryOut (i : Instruction) :
    Agree (Beside cycles f g n) (carryOut i) (carryOut i) :=
  .bind (SameBut.update fun _ => rfl) fun _ =>
    .bind (beside_access (SameBut.onPart (.instruction i) (fun _ => rfl) fun _ _ => rfl))
      fun _ => SameBut.update fun _ => rfl

theorem access_bind {δ : Type} (x : EStateM BusError (Wired Cpu MainBus) δ)
    (k : δ → EStateM BusError (Wired Cpu MainBus) α) :
    access (x >>= k) = access x >>= fun d => access (k d) := by
  funext w
  cases hx : x w with
  | ok d v =>
    rw [bind_ok (access_ok hx)]
    dsimp only [access, EStateM.adaptExcept]
    rw [bind_ok hx]
  | error e v =>
    rw [bind_error (access_error hx)]
    exact access_error (bind_error hx)

def trace (c : Cpu) : EStateM CpuError (Wired Cpu MainBus) Unit := do
  let opcode ← access (Wired.read c.registers.pc)
  let count := ((Instruction.decode? opcode).map (·.mode.operandLength)).getD 0
  let operands ← access (readBytes (c.registers.pc + 1) count)
  report (.executing ⟨c.registers.pc, opcode :: operands, c.registers, c.cycles⟩)

theorem traceLine_report : (do report (.executing (← access traceLine))) =
    (Wired.look id >>= trace : EStateM CpuError (Wired Cpu MainBus) Unit) := by
  unfold traceLine
  simp only [access_bind, bind_assoc]
  rfl

/-- The lines differ in the count of cycles, which nothing looks at. -/
theorem beside_traced : Agree (Beside cycles f g n) (Wired.look id >>= trace)
    (Wired.look id >>= trace) := by
  intro w v hw
  change Alike _ (trace w.chip w) (trace v.chip v)
  rw [hw.1]
  exact Agree.bind (beside_access (SameBut.read _)) (fun opcode =>
    .bind (beside_access (.readBytes SameBut.read _ _)) fun operands => beside_report _ _) w v hw

theorem beside_executeNext : Agree (Beside cycles f g n) executeNext executeNext := by
  refine .bind (SameBut.look fun _ => rfl) fun address =>
    .bind (beside_access (SameBut.read address)) fun opcode => ?_
  cases Instruction.decode? opcode with
  | none => exact .throw _
  | some i =>
    refine .bind_get fun w v hw => ?_
    rw [hw.2.tracing]
    cases CpuBus.tracing w.bus with
    | false => exact beside_carryOut i w v hw
    | true =>
      -- The line shows the count of cycles, and only the report takes it up.
      have hline : Agree (Beside cycles f g n) (Wired.look id >>= trace)
        (Wired.look id >>= trace) := beside_traced
      have htraced := hline.bind fun _ => beside_carryOut i
      rw [← traceLine_report, bind_assoc] at htraced
      exact htraced w v hw

theorem beside_serve : Agree (Beside cycles f g n) serve serve := by
  rw [serve_eq_enter]
  refine .bind (SameBut.look fun _ => rfl) fun entry => ?_
  cases entry with
  | nmi => exact .bind (SameBut.update fun _ => rfl) fun _ => beside_interrupt _
  | irq => exact beside_interrupt _
  | instruction => exact beside_executeNext

end

section
variable {s t : Tally} {m n : Nat} {w v : Wired Cpu MainBus}

def Since (s t : Tally) (m n : Nat) (w v : Wired Cpu MainBus) : Prop :=
  Beside (t.cycles + m) s.frames t.frames n w v ∧ w.chip.cycles = s.cycles + m

/-- A cycle passes on both, unless one of the counts is full. -/
theorem Since.tick (h : Since s t m n w v) :
    Matching .counterFull (Since s t (m + 1) n) (Since s t m n) (tick w) (tick v) := by
  obtain ⟨c, b⟩ := w
  obtain ⟨c', b'⟩ := v
  obtain ⟨⟨hchip, hbus⟩, hcycles⟩ := h
  obtain rfl : c' = c.recount (t.cycles + m) := hchip
  unfold Cpu.tick
  dsimp only
  by_cases hfull : c.cycles + 1 < cycleLimit
  · by_cases hfull' : (c.recount (t.cycles + m)).cycles + 1 < cycleLimit
    · rw [if_pos hfull, if_pos hfull']
      refine .ok ⟨⟨rfl, hbus⟩, ?_⟩
      change c.cycles + 1 = s.cycles + (m + 1)
      rw [show c.cycles = s.cycles + m from hcycles, Nat.add_assoc]
    · rw [if_neg hfull']
      exact .right
  · rw [if_neg hfull]
    exact .left

theorem Since.serve (h : Since s t m n w v) : Alike (Since s t m n) (serve w) (serve v) := by
  have hr := beside_serve w v h.1
  have hcycles := keepsView_serve (β := MainBus) (f := Cpu.cycles) ⟨fun _ _ => rfl, fun _ _ => rfl⟩
    (fun _ => rfl) _ w h.2
  cases hs : Cpu.serve w <;> cases ht : Cpu.serve v <;> rw [hs, ht] at hr <;> rw [hs] at hcycles
  case ok.ok => exact ⟨rfl, hr.2, hcycles⟩
  case error.error => exact ⟨hr.1, hr.2, hcycles⟩
  all_goals exact hr.elim

theorem Since.clock (h : Since s t m n w v) :
    Matching .counterFull (Since s t (m + 1) n) (Since s t m n) (clock w) (clock v) := by
  have hfault : v.chip.fault = w.chip.fault := by rw [h.1.1]; rfl
  have hremaining : v.chip.remaining = w.chip.remaining := by rw [h.1.1]; rfl
  unfold Cpu.clock
  rw [hfault, hremaining]
  cases w.chip.fault with
  | some e => exact .error h
  | none =>
    dsimp only
    split
    case isFalse => exact h.tick
    case isTrue =>
      have hr := h.serve
      cases hs : Cpu.serve w <;> cases ht : Cpu.serve v <;> rw [hs, ht] at hr
      case ok.ok => exact Since.tick hr.2
      case error.error e w' _ v' =>
        obtain ⟨rfl, ⟨hchip, hbus⟩, hcycles⟩ := hr
        refine .error ⟨⟨?_, hbus.note _ _⟩, hcycles⟩
        exact congrArg (fun c : Cpu => { c with fault := some e }) hchip
      all_goals exact hr.elim

theorem Since.stall (h : Since s t m n w v) (cycles : Nat) :
    Alike (Since s t m n) (stall cycles w) (stall cycles v) := by
  obtain ⟨c, b⟩ := w
  obtain ⟨c', b'⟩ := v
  obtain ⟨⟨hchip, hbus⟩, hcycles⟩ := h
  obtain rfl : c' = c.recount (t.cycles + m) := hchip
  have hremaining : (c.recount (t.cycles + m)).remaining = c.remaining := rfl
  unfold Cpu.stall
  dsimp only
  rw [hremaining]
  split
  · exact ⟨rfl, ⟨rfl, hbus⟩, hcycles⟩
  · exact ⟨rfl, ⟨rfl, hbus⟩, hcycles⟩

end
end Cpu

/-! ### The console -/

namespace Console

section
variable {α : Type} {s t : Tally} {m n : Nat} {c d : Console}

def Since (s t : Tally) (m n : Nat) (c d : Console) : Prop :=
  Cpu.Since s t m n c.machine d.machine ∧ d.frameReady = c.frameReady

theorem since_onBus {x : EStateM BusError MainBus α}
    (hx : Agree (MainBus.Matches s.frames t.frames n) x x) :
    Agree (Since s t m n) (onBus x) (onBus x) := by
  intro ⟨⟨chip, b⟩, ready⟩ ⟨⟨chip', b'⟩, ready'⟩ ⟨⟨⟨hchip, hbus⟩, hcycles⟩, hready⟩
  have hr := hx b b' hbus
  dsimp only [onBus, Wired.onBus]
  cases hl : x b <;> cases hd : x b' <;> rw [hl, hd] at hr
  case ok.ok => exact ⟨hr.1, ⟨⟨hchip, hr.2⟩, hcycles⟩, hready⟩
  case error.error => exact ⟨congrArg _ hr.1, ⟨⟨hchip, hr.2⟩, hcycles⟩, hready⟩
  all_goals exact hr.elim

theorem since_onMachine {x : EStateM CpuError (Wired Cpu MainBus) α} {m' : Nat}
    (h : Since s t m n c d) (hx : Matching .counterFull (Cpu.Since s t m' n) (Cpu.Since s t m n)
      (x c.machine) (x d.machine)) :
    Matching (.cpu .counterFull) (Since s t m' n) (Since s t m n) (onMachine x c)
      (onMachine x d) := by
  obtain ⟨w, ready⟩ := c
  obtain ⟨v, ready'⟩ := d
  dsimp only [onMachine] at hx ⊢
  generalize x w = r at hx ⊢
  generalize x v = r' at hx ⊢
  cases hx with
  | ok hx => exact .ok ⟨hx, h.2⟩
  | error hx => exact .error ⟨hx, h.2⟩
  | left => exact .left
  | right => exact .right

theorem Since.heed (h : Since s t m n c d) (tick : Tick) :
    Since s t m n (c.heed tick) (d.heed tick) := by
  obtain ⟨⟨chip, b⟩, ready⟩ := c
  obtain ⟨⟨chip', b'⟩, ready'⟩ := d
  obtain ⟨⟨⟨hchip, hbus⟩, hcycles⟩, hready⟩ := h
  obtain rfl : chip' = chip.recount (t.cycles + m) := hchip
  obtain rfl : ready' = ready := hready
  obtain ⟨nmi, complete⟩ := tick
  cases nmi <;> cases complete <;> exact ⟨⟨⟨rfl, hbus⟩, hcycles⟩, rfl⟩

theorem Since.stepDot (h : Since s t m n c d) :
    ∃ c' d', stepDot c = .ok () c' ∧ stepDot d = .ok () d' ∧ Since s t m (n + 1) c' d' := by
  obtain ⟨⟨chip, b⟩, ready⟩ := c
  obtain ⟨⟨chip', b'⟩, ready'⟩ := d
  obtain ⟨⟨⟨hchip, hbus⟩, hcycles⟩, hready⟩ := h
  obtain ⟨e, e', hstep, hstep', hnext⟩ := MainBus.Matches.stepDot hbus
  have hdot {chip : Cpu} {b e : MainBus} {tick : Tick} {ready : Bool}
      (h : MainBus.stepDot b = .ok tick e) :
      Console.stepDot ⟨⟨chip, b⟩, ready⟩ = .ok () (Console.heed tick ⟨⟨chip, e⟩, ready⟩) := by
    refine bind_ok ?_
    dsimp only [onBus, Wired.onBus]
    rw [h]
  refine ⟨_, _, hdot hstep, hdot hstep', ?_⟩
  exact Since.heed (c := ⟨⟨chip, e⟩, ready⟩) (d := ⟨⟨chip', e'⟩, ready'⟩)
    ⟨⟨⟨hchip, hnext⟩, hcycles⟩, hready⟩ _

theorem Since.serveTransfer (h : Since s t m n c d) (hparity : s.cycles % 2 = t.cycles % 2) :
    Matching (.cpu .counterFull) (Since s t m n) (Since s t m n) (serveTransfer c)
      (serveTransfer d) := by
  refine .bind (.of_alike (since_onBus MainBus.matches_takeTransfer c d h)) fun request c d h => ?_
  cases request with
  | none => exact .ok h
  | some page =>
    refine .bind (.of_alike (since_onBus (MainBus.matches_transferObjects page) c d h))
      fun _ c d h => ?_
    have hcycles : c.cpu.cycles = s.cycles + m := h.1.2
    have hcycles' : d.cpu.cycles = t.cycles + m := congrArg Cpu.cycles h.1.1.1
    -- Both counts have gone up by as much, so they are odd together.
    change Matching _ _ _ (onMachine (Cpu.stall (transferCycles + c.cpu.cycles % 2)) c)
      (onMachine (Cpu.stall (transferCycles + d.cpu.cycles % 2)) d)
    rw [show c.cpu.cycles % 2 = d.cpu.cycles % 2 by omega]
    exact since_onMachine h (.of_alike (h.1.stall _))

theorem Since.hold (h : Since s t m n c d) (pad : Nat) (buttons : UInt8) :
    Since s t m n (c.hold pad buttons) (d.hold pad buttons) := by
  obtain ⟨⟨⟨hchip, hbus⟩, hcycles⟩, hready⟩ := h
  refine ⟨⟨⟨hchip, ?_⟩, hcycles⟩, hready⟩
  dsimp only [Console.hold, updateBus]
  rw [hbus.peripherals]
  cases c.machine.bus.peripherals.hold? pad buttons with
  | some p => exact ⟨hbus.ram, rfl, hbus.video, hbus.picture⟩
  | none => exact hbus.note _ _

end

def Matched (s t : Tally) (c d : Console) : Prop := ∃ m, Since s t m (3 * m) c d

section
variable {s t : Tally} {c d : Console} (hparity : s.cycles % 2 = t.cycles % 2)
include hparity

theorem Matched.step (h : Matched s t c d) :
    Matching (.cpu .counterFull) (Matched s t) (Matched s t) (step c) (step d) := by
  obtain ⟨m, h⟩ := h
  have hclock := (since_onMachine h h.1.clock).mono (fun _ _ h => h) fun _ _ h =>
    (⟨m, h⟩ : Matched s t _ _)
  refine hclock.bind fun _ c d h => ?_
  obtain ⟨c₁, d₁, hc₁, hd₁, h⟩ := h.stepDot
  obtain ⟨c₂, d₂, hc₂, hd₂, h⟩ := h.stepDot
  obtain ⟨c₃, d₃, hc₃, hd₃, h⟩ := h.stepDot
  rw [bind_ok hc₁, bind_ok hd₁, bind_ok hc₂, bind_ok hd₂, bind_ok hc₃, bind_ok hd₃]
  exact (h.serveTransfer hparity).mono (fun _ _ h => ⟨m + 1, h⟩) fun _ _ h => ⟨m + 1, h⟩

theorem Matched.stepUntilReady (n : Nat) (h : Matched s t c d) :
    Matching (.cpu .counterFull) (Matched s t) (Matched s t) (stepUntilReady n c)
      (stepUntilReady n d) := by
  induction n generalizing c d with
  | zero => exact .ok h
  | succ n ih =>
    have hready : d.frameReady = c.frameReady := h.choose_spec.2
    rw [stepUntilReady_succ, stepUntilReady_succ, hready]
    split
    · exact .ok h
    · exact (h.step hparity).bind fun _ _ _ h => ih h

theorem Matched.run (h : Matched s t c d) {op : HostOp}
    (hop : op.advances = true ∨ op.holds = true) :
    Matching (.cpu .counterFull) (Matched s t) (Matched s t) (op.run c) (op.run d) := by
  cases op with
  | step => exact (h.step hparity).bind fun _ _ _ h => .ok h
  | runFrame =>
    obtain ⟨m, h⟩ := h
    have hframe := Matched.stepUntilReady hparity (c := { c with frameReady := false })
      (d := { d with frameReady := false }) longestFrame ⟨m, h.1, rfl⟩
    exact Matching.bind (x := runFrame) (y := runFrame) hframe fun _ _ _ h => .ok h
  | hold pad buttons =>
    obtain ⟨m, h⟩ := h
    exact .ok ⟨m, h.hold pad buttons⟩
  | reset | read | write | readVideo | stepDot | transferObjects =>
    rcases hop with hop | hop <;> cases hop

end
end Console
end NesConsole
