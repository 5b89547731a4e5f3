import NesConsole.Proofs.Safety.Whole

/-! Two processors on buses that differ in what was reported, and in how much of it they keep. The
one that traces reads every instruction twice. Where the bytes of an instruction lie at addresses
that a read leaves alone, the two run it alike. -/
namespace NesConsole

namespace VideoBus

def withJournal (journal : Journal) (v : VideoBus) : VideoBus := { v with journal := journal }

def Twins (v v' : VideoBus) : Prop := (∃ journal, v' = v.withJournal journal) ∧
  v.cartridge.board.Whole

theorem agree_write (address : UInt16) (data : UInt8) :
    Agree Twins (VideoBus.write address data) (VideoBus.write address data) := by
  rintro v _ ⟨⟨journal, rfl⟩, hwhole⟩
  have hlt : (address % 0x4000).toNat < 0x4000 := by
    rw [UInt16.toNat_mod]
    exact Nat.mod_lt _ (by decide)
  obtain ⟨device, hdevice⟩ := videoMap_owner _ hlt
  unfold VideoBus.write withJournal
  dsimp only
  rw [hdevice]
  cases device with
  | patterns =>
    obtain ⟨b, -, hb', hpattern⟩ := Cartridge.exists_writePattern hwhole (address % 0x4000) data
    dsimp only
    rw [hpattern]
    exact ⟨rfl, ⟨_, rfl⟩, hb'⟩
  | nameTables | nameTablesAgain | palette => exact ⟨rfl, ⟨journal, rfl⟩, hwhole⟩

instance : BusAgreement Twins where
  read address := by
    rintro v _ ⟨⟨journal, rfl⟩, hwhole⟩
    have hwhole' : (v.withJournal journal).cartridge.board.Whole := hwhole
    obtain ⟨_, hread, he⟩ := steady_of_whole hwhole address v rfl
    obtain ⟨_, hread', he'⟩ := steady_of_whole hwhole' address _ rfl
    rw [hread, hread', he, he']
    exact ⟨rfl, ⟨journal, rfl⟩, hwhole⟩
  write := agree_write

end VideoBus

namespace Ppu
open VideoBus (Twins)

/-- A dot reports nothing, and does not look at what was reported. -/
theorem agree_step : Agree (SameChip Twins) step step := by
  rintro ⟨p, v⟩ ⟨_, _⟩ ⟨rfl, ⟨journal, rfl⟩, hwhole⟩
  have hwhole' : (v.withJournal journal).cartridge.board.Whole := hwhole
  obtain ⟨_, hstep, he⟩ := does_step (VideoBus.steady_of_whole hwhole) p v rfl
  obtain ⟨_, hstep', he'⟩ := does_step (VideoBus.steady_of_whole hwhole') p _ rfl
  rw [hstep, hstep', he, he']
  exact ⟨rfl, rfl, ⟨journal, rfl⟩, hwhole⟩

theorem agree_readRegister (address : UInt16) :
    Agree (SameChip Twins) (readRegister address) (readRegister address) := by
  unfold readRegister
  split
  · exact .bind (.look _) fun _ => .bind (.update _) fun _ => .pure _
  · exact .look _
  · refine .bind (.look _) fun a => ?_
    split
    · exact .bind (.read _) fun _ => .bind (.update _) fun _ => .bind (.read _) fun _ =>
        .bind (.update _) fun _ => .pure _
    · exact .bind (.read _) fun _ => .bind (.look _) fun _ => .bind (.update _) fun _ => .pure _
  · exact .look _

theorem agree_writeRegister (address : UInt16) (data : UInt8) :
    Agree (SameChip Twins) (writeRegister address data) (writeRegister address data) := by
  refine .bind (.update _) fun _ => ?_
  generalize address.toNat % 8 = register
  match register with
  | 0 | 1 | 3 | 4 | 5 | 6 => exact .update _
  | 2 => exact .pure _
  | n + 7 => exact .bind (.look _) fun _ => .bind (.write _ _) fun _ => .update _

end Ppu

namespace MainBus

def withJournal (journal : Journal) (b : MainBus) : MainBus :=
  { b with video := b.video.withJournal journal }

def unlogged (b : MainBus) : MainBus := b.withJournal {}

def Twins (b b' : MainBus) : Prop := (∃ journal, b' = b.withJournal journal) ∧ b.Whole

namespace Twins
variable {b b' b'' : MainBus}

theorem refl (h : b.Whole) : b.Twins b := ⟨⟨b.video.journal, rfl⟩, h⟩

theorem whole (h : b.Twins b') : b'.Whole := by
  obtain ⟨⟨journal, rfl⟩, hb⟩ := h
  exact hb

theorem symm (h : b.Twins b') : b'.Twins b := by
  refine ⟨?_, h.whole⟩
  obtain ⟨⟨journal, rfl⟩, -⟩ := h
  exact ⟨b.video.journal, rfl⟩

theorem trans (h : b.Twins b') (h' : b'.Twins b'') : b.Twins b'' := by
  obtain ⟨⟨_, rfl⟩, hb⟩ := h
  obtain ⟨⟨journal, rfl⟩, -⟩ := h'
  exact ⟨⟨journal, rfl⟩, hb⟩

theorem unlogged_eq (h : b.Twins b') : b.unlogged = b'.unlogged := by
  obtain ⟨⟨_, rfl⟩, -⟩ := h
  rfl

theorem note (h : b.Twins b') (es es' : List Event) : (b.note es).Twins (b'.note es') := by
  obtain ⟨⟨_, rfl⟩, hb⟩ := h
  exact ⟨⟨_, rfl⟩, hb⟩

end Twins

section
variable {α : Type}

theorem agree_onPicture {x : EStateM BusError (Wired Ppu VideoBus) α}
    (h : Agree (SameChip VideoBus.Twins) x x) : Agree Twins (onPicture x) (onPicture x) := by
  rintro ⟨ram, peripherals, video, picture⟩ _ ⟨⟨journal, rfl⟩, hwhole⟩
  have hr := h ⟨picture, video⟩ ⟨picture, video.withJournal journal⟩ ⟨rfl, ⟨journal, rfl⟩, hwhole⟩
  dsimp only [onPicture, withJournal]
  cases hx : x ⟨picture, video⟩ <;> cases hy : x ⟨picture, video.withJournal journal⟩ <;>
    rw [hx, hy] at hr
  case ok.ok a w b v =>
    obtain ⟨rfl, hchip, ⟨journal', hbus⟩, hw⟩ := hr
    exact ⟨rfl, ⟨journal', by rw [hbus, ← hchip]; rfl⟩, hw⟩
  case error.error e w f v =>
    obtain ⟨rfl, hchip, ⟨journal', hbus⟩, hw⟩ := hr
    exact ⟨rfl, ⟨journal', by rw [hbus, ← hchip]; rfl⟩, hw⟩
  all_goals exact hr.elim

theorem agree_modify {f : MainBus → MainBus} (h : ∀ b b', b.Twins b' → (f b).Twins (f b')) :
    Agree (ε := BusError) Twins (modify f) (modify f) :=
  fun b b' hb => ⟨rfl, h b b' hb⟩

theorem agree_read (address : UInt16) :
    Agree Twins (MainBus.read address) (MainBus.read address) := by
  intro b b' hb
  have hpicture := agree_onPicture (Ppu.agree_readRegister address) b b' hb
  obtain ⟨⟨journal, rfl⟩, hwhole⟩ := hb
  unfold MainBus.read
  cases mainMap.owner? address with
  | none => exact ⟨rfl, ⟨journal, rfl⟩, hwhole⟩
  | some device =>
    cases device with
    | ram | ramAgain | peripherals => exact ⟨rfl, ⟨journal, rfl⟩, hwhole⟩
    | picture => exact hpicture
    | cartridge =>
      obtain ⟨byte, hbyte⟩ := Cartridge.exists_read hwhole address
      dsimp only [withJournal, VideoBus.withJournal]
      rw [hbyte]
      exact ⟨rfl, ⟨journal, rfl⟩, hwhole⟩

theorem agree_write (address : UInt16) (data : UInt8) :
    Agree Twins (MainBus.write address data) (MainBus.write address data) := by
  intro b b' hb
  have hpicture := agree_onPicture (Ppu.agree_writeRegister address data) b b' hb
  obtain ⟨⟨journal, rfl⟩, hwhole⟩ := hb
  unfold MainBus.write
  cases mainMap.owner? address with
  | none => exact ⟨rfl, ⟨journal, rfl⟩, hwhole⟩
  | some device =>
    cases device with
    | ram | ramAgain | peripherals => exact ⟨rfl, ⟨_, rfl⟩, hwhole⟩
    | picture => exact hpicture
    | cartridge => exact ⟨rfl, ⟨_, rfl⟩, Cartridge.whole_write hwhole address data⟩

instance : ReportAgreement Twins where
  read := agree_read
  write := agree_write
  report _ _ _ h := h.note _ _

theorem agree_readBlock (n : Nat) (address : UInt16) :
    Agree Twins (readBlock address n) (readBlock address n) := by
  induction n generalizing address with
  | zero => exact .pure []
  | succ n ih => exact .bind (agree_read address) fun _ => .bind (ih _) fun _ => .pure _

theorem twins_picture {b b' : MainBus} (h : b.Twins b') (f : Ppu → Ppu) :
    Twins { b with picture := f b.picture } { b' with picture := f b'.picture } := by
  obtain ⟨⟨journal, rfl⟩, hb⟩ := h
  exact ⟨⟨journal, rfl⟩, hb⟩

theorem agree_transferObjects (page : UInt8) :
    Agree Twins (transferObjects page) (transferObjects page) := by
  have hblock := agree_readBlock 256 (wordOf 0 page)
  unfold transferObjects
  exact .bind (agree_modify fun _ _ h => h.note _ _) fun _ => .bind hblock fun bytes =>
    agree_modify fun _ _ h => twins_picture h _

/-! ### Reads that change nothing -/

/-- Registers that a read changes: status and data of the picture unit, and the joypads. -/
def changesWhenRead (address : UInt16) : Bool :=
  (mainMap.owner? address == some .picture &&
    (address.toNat % 8 == 2 || address.toNat % 8 == 7)) ||
  address == Peripherals.firstPadAddress || address == Peripherals.secondPadAddress

theorem changesWhenRead_cartridge {address : UInt16} (h : 0x4020 ≤ address) :
    changesWhenRead address = false := by
  have hfirst : address ≠ Peripherals.firstPadAddress := by
    rintro rfl
    exact absurd h (by decide)
  have hsecond : address ≠ Peripherals.secondPadAddress := by
    rintro rfl
    exact absurd h (by decide)
  simp [changesWhenRead, mainMap_cartridge h, hfirst, hsecond]

/-- Behind an address that answers and keeps still comes another that answers. -/
theorem owner?_next {address : UInt16} (h : mainMap.owner? address ≠ none)
    (hquiet : changesWhenRead address = false) : mainMap.owner? (address + 1) ≠ none := by
  have hlt := address.toNat_lt
  have hpad : address.toNat ≠ 0x4017 := by
    intro he
    have : address = Peripherals.secondPadAddress := UInt16.toNat_inj.1 he
    simp [changesWhenRead, this] at hquiet
  rw [Ne, owner?_eq_none] at h ⊢
  rw [UInt16.toNat_add]
  change ¬(0x4018 ≤ (address.toNat + 1) % 65536 ∧ (address.toNat + 1) % 65536 < 0x4020)
  omega

theorem read_quiet {b : MainBus} (hb : b.Whole) {address : UInt16}
    (h : mainMap.owner? address ≠ none) (hquiet : changesWhenRead address = false) :
    ∃ byte, MainBus.read address b = .ok byte b := by
  unfold MainBus.read
  simp only [changesWhenRead, Bool.or_eq_false_iff, Bool.and_eq_false_iff, beq_eq_false_iff_ne,
    ne_eq] at hquiet
  obtain ⟨⟨hpicture, hfirst⟩, hsecond⟩ := hquiet
  cases howner : mainMap.owner? address with
  | none => exact absurd howner h
  | some device =>
    cases device with
    | ram | ramAgain => exact ⟨_, rfl⟩
    | picture =>
      have hregister := hpicture.resolve_left (by simp [howner])
      dsimp only [onPicture, Ppu.readRegister]
      generalize address.toNat % 8 = register at hregister
      match register with
      | 2 => exact absurd rfl hregister.1
      | 7 => exact absurd rfl hregister.2
      | 0 | 1 | 3 | 4 | 5 | 6 | n + 8 => exact ⟨_, rfl⟩
    | peripherals =>
      simp only [Peripherals.read, hfirst, hsecond, if_false]
      exact ⟨_, rfl⟩
    | cartridge =>
      obtain ⟨byte, hbyte⟩ := Cartridge.exists_read hb address
      dsimp only
      rw [hbyte]
      exact ⟨byte, rfl⟩

end
end MainBus

/-! ### The processor -/

namespace Cpu
open MainBus (Twins Whole changesWhenRead)

def lineLength (w : Wired Cpu MainBus) : Nat :=
  match MainBus.read w.chip.registers.pc w.bus with
  | .ok opcode _ => 1 + ((Instruction.decode? opcode).map (·.mode.operandLength)).getD 0
  | .error _ _ => 0

/-- When the next instruction is due, its bytes lie where a read changes nothing. -/
def ReadsQuietly (w : Wired Cpu MainBus) : Prop :=
  w.chip.fault = none → w.chip.remaining = 0 → w.chip.boundary = .instruction →
    ∀ k < lineLength w, changesWhenRead (w.chip.registers.pc + UInt16.ofNat k) = false

theorem lineLength_le (w : Wired Cpu MainBus) : lineLength w ≤ 3 := by
  have hoperands (mode : AddressingMode) : mode.operandLength ≤ 2 := by cases mode <;> decide
  unfold lineLength
  cases MainBus.read w.chip.registers.pc w.bus with
  | error => exact Nat.zero_le 3
  | ok opcode =>
    dsimp only
    cases Instruction.decode? opcode with
    | none => decide
    | some i =>
      have := hoperands i.mode
      simp only [Option.map_some, Option.getD_some]
      omega

/-- A program on the cartridge, short of the end of memory, lies quietly. -/
theorem readsQuietly_cartridge {w : Wired Cpu MainBus} (h : 0x4020 ≤ w.chip.registers.pc)
    (h' : w.chip.registers.pc ≤ 0xFFFD) : ReadsQuietly w := by
  intro _ _ _ k hk
  have hlength := lineLength_le w
  have hlow : 0x4020 ≤ w.chip.registers.pc.toNat := h
  have hhigh : w.chip.registers.pc.toNat ≤ 0xFFFD := h'
  refine MainBus.changesWhenRead_cartridge ?_
  rw [UInt16.le_iff_toNat_le, UInt16.toNat_add, UInt16.toNat_ofNat']
  change 0x4020 ≤ (w.chip.registers.pc.toNat + k % 65536) % 65536
  omega

abbrev Pair : Wired Cpu MainBus → Wired Cpu MainBus → Prop := SameChip Twins

theorem Pair.symm {w v : Wired Cpu MainBus} (h : Pair w v) : Pair v w := ⟨h.1.symm, h.2.symm⟩

theorem Pair.trans {w v u : Wired Cpu MainBus} (h : Pair w v) (h' : Pair v u) : Pair w u :=
  ⟨h.1.trans h'.1, h.2.trans h'.2⟩

/-- As `executeNext` when nothing is traced. -/
def executePlainly : EStateM CpuError (Wired Cpu MainBus) Unit := do
  let address ← Wired.look (·.registers.pc)
  let opcode ← access (Wired.read address)
  match Instruction.decode? opcode with
  | none => throw (.illegalOpcode opcode address)
  | some i => carryOut i

theorem agree_executePlainly : Agree Pair executePlainly executePlainly := by
  refine .bind (.look _) fun address => .bind (.access (.read address)) fun opcode => ?_
  cases Instruction.decode? opcode with
  | none => exact .throw _
  | some i => exact Agree.carryOut i

/-- Of quiet bytes the first is quiet, and so are those behind it. -/
theorem quiet_succ {address : UInt16} {n : Nat}
    (h : ∀ k < n + 1, changesWhenRead (address + UInt16.ofNat k) = false) :
    changesWhenRead address = false ∧
      ∀ k < n, changesWhenRead (address + 1 + UInt16.ofNat k) = false := by
  refine ⟨by simpa using h 0 n.succ_pos, fun k hk => ?_⟩
  have hplace : address + 1 + UInt16.ofNat k = address + UInt16.ofNat (1 + k) := by
    rw [UInt16.add_assoc, UInt16.ofNat_add]
    rfl
  rw [hplace]
  exact h (1 + k) (by omega)

theorem readBytes_quiet {c : Cpu} {b : MainBus} (hb : b.Whole) (n : Nat) (address : UInt16)
    (h : mainMap.owner? address ≠ none)
    (hquiet : ∀ k < n, changesWhenRead (address + UInt16.ofNat k) = false) :
    ∃ bytes, readBytes address n ⟨c, b⟩ = .ok bytes ⟨c, b⟩ := by
  induction n generalizing address with
  | zero => exact ⟨[], rfl⟩
  | succ n ih =>
    obtain ⟨hfirst, hnext⟩ := quiet_succ hquiet
    obtain ⟨byte, hread⟩ := MainBus.read_quiet hb h hfirst
    obtain ⟨bytes, hbytes⟩ := ih (address + 1) (MainBus.owner?_next h hfirst) hnext
    exact ⟨byte :: bytes, (bind_ok (Wired.read_ok hread)).trans ((bind_ok hbytes).trans rfl)⟩

/-- Where its bytes are quiet, an instruction is traced without a change. -/
theorem traceLine_quiet {c : Cpu} {b : MainBus} (hb : b.Whole) {opcode : UInt8}
    (hread : MainBus.read c.registers.pc b = .ok opcode b)
    (howner : mainMap.owner? c.registers.pc ≠ none)
    (hquiet : ∀ k < lineLength ⟨c, b⟩,
      changesWhenRead (c.registers.pc + UInt16.ofNat k) = false) :
    ∃ line, traceLine (⟨c, b⟩ : Wired Cpu MainBus) = .ok line ⟨c, b⟩ := by
  have hlength : lineLength ⟨c, b⟩ =
      ((Instruction.decode? opcode).map (·.mode.operandLength)).getD 0 + 1 := by
    unfold lineLength
    rw [hread]
    exact Nat.add_comm _ _
  rw [hlength] at hquiet
  obtain ⟨hpc, hoperands⟩ := quiet_succ hquiet
  obtain ⟨bytes, hbytes⟩ :=
    readBytes_quiet hb _ _ (MainBus.owner?_next howner hpc) (c := c) hoperands
  exact ⟨_, (bind_ok (Wired.read_ok hread)).trans ((bind_ok hbytes).trans rfl)⟩

/-- An instruction whose bytes were read without a change is carried out alike, reported or not. -/
theorem alike_reported {c : Cpu} {b : MainBus} (hw : b.Whole) (i : Instruction) {line : TraceLine}
    (hline : traceLine (⟨c, b⟩ : Wired Cpu MainBus) = .ok line ⟨c, b⟩) :
    Alike Pair
      ((if CpuBus.tracing b then
          access traceLine >>= fun line => report (.executing line) >>= fun _ => carryOut i
        else carryOut i) ⟨c, b⟩)
      (carryOut i ⟨c, b⟩) := by
  split
  · have hnoted : (b.note [.cpu (.executing line)]).Twins b := .note (.refl hw) _ []
    rw [bind_ok (access_ok hline)]
    exact Agree.carryOut i ⟨c, b.note [.cpu (.executing line)]⟩ ⟨c, b⟩ ⟨rfl, hnoted⟩
  · exact Agree.carryOut i _ _ ⟨rfl, .refl hw⟩

/-- What a trace reads it leaves as it was. -/
theorem executeNext_plainly {w : Wired Cpu MainBus} (hw : w.bus.Whole)
    (hquiet : ∀ k < lineLength w, changesWhenRead (w.chip.registers.pc + UInt16.ofNat k) = false) :
    Alike Pair (executeNext w) (executePlainly w) := by
  obtain ⟨c, b⟩ := w
  have hwhole := MainBus.leads_read c.registers.pc b hw
  cases hr : MainBus.read c.registers.pc b <;> rw [hr] at hwhole
  case error e b' =>
    have hread := access_error (Wired.read_error (β := MainBus) (c := c) hr)
    have hnext : executeNext ⟨c, b⟩ = .error (.bus e) ⟨c, b'⟩ :=
      (bind_ok rfl).trans (bind_error hread)
    have hplain : executePlainly ⟨c, b⟩ = .error (.bus e) ⟨c, b'⟩ :=
      (bind_ok rfl).trans (bind_error hread)
    rw [hnext, hplain]
    exact ⟨rfl, rfl, .refl hwhole.2⟩
  case ok opcode b' =>
    have howner : mainMap.owner? c.registers.pc ≠ none := by
      intro hnone
      unfold MainBus.read at hr
      rw [hnone] at hr
      cases hr
    have hpc : changesWhenRead c.registers.pc = false := by
      have hpos : 0 < lineLength ⟨c, b⟩ := by
        unfold lineLength
        rw [hr]
        exact Nat.lt_of_lt_of_le Nat.one_pos (Nat.le_add_right 1 _)
      simpa using hquiet 0 hpos
    obtain ⟨_, hsame⟩ := MainBus.read_quiet hw howner hpc
    obtain rfl : b' = b := by
      rw [hr] at hsame
      cases hsame
      rfl
    obtain ⟨line, hline⟩ := traceLine_quiet hw hr howner hquiet
    have hread := access_ok (Wired.read_ok (β := MainBus) (c := c) hr)
    unfold executeNext executePlainly
    change Alike Pair ((access (Wired.read c.registers.pc) >>= _) _)
      ((access (Wired.read c.registers.pc) >>= _) _)
    rw [bind_ok hread, bind_ok hread]
    cases Instruction.decode? opcode with
    | none => exact ⟨rfl, rfl, .refl hw⟩
    | some i => exact alike_reported hw i hline

theorem lineLength_eq {w v : Wired Cpu MainBus} (h : Pair w v) : lineLength w = lineLength v := by
  obtain ⟨c, b⟩ := w
  obtain ⟨_, b'⟩ := v
  obtain ⟨rfl, hb⟩ := h
  have hr := MainBus.agree_read c.registers.pc b b' hb
  unfold lineLength
  dsimp only
  cases hx : MainBus.read c.registers.pc b <;> cases hy : MainBus.read c.registers.pc b' <;>
    rw [hx, hy] at hr
  case ok.ok => rw [hr.1]
  all_goals exact hr.elim

theorem alike_serve {w v : Wired Cpu MainBus} (h : Pair w v)
    (hquiet : w.chip.boundary = .instruction → ∀ k < lineLength w,
      changesWhenRead (w.chip.registers.pc + UInt16.ofNat k) = false) :
    Alike Pair (serve w) (serve v) := by
  rw [serve_eq_enter]
  change Alike Pair (enter w.chip.boundary w) (enter v.chip.boundary v)
  rw [← h.1]
  cases hentry : w.chip.boundary with
  | nmi => exact Agree.bind (.update _) (fun _ => .interrupt _) w v h
  | irq => exact Agree.interrupt irqVector w v h
  | instruction =>
    have hw := hquiet hentry
    have hv := hw
    rw [lineLength_eq h, h.1] at hv
    have hwhole : w.bus.Whole := h.2.2
    -- Both go on as a processor that traces nothing.
    have htrans : ∀ w v u : Wired Cpu MainBus, Pair w v → Pair v u → Pair w u :=
      fun _ _ _ => Pair.trans
    have hright : Alike Pair (executePlainly v) (executeNext v) :=
      (executeNext_plainly h.2.whole hv).symm fun _ _ => Pair.symm
    exact (executeNext_plainly hwhole hw).trans htrans
      ((agree_executePlainly w v h).trans htrans hright)

/-- A cycle goes alike, unless it reads an instruction where a read changes something. -/
theorem alike_clock {w v : Wired Cpu MainBus} (h : Pair w v) (hquiet : ReadsQuietly w) :
    Alike Pair (clock w) (clock v) := by
  rw [clock_eq_clockBy]
  exact Agree.alike_clockBy h fun hfault hremaining =>
    alike_serve h (hquiet hfault hremaining)

end Cpu

end NesConsole
