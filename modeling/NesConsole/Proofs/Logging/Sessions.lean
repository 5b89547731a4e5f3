import NesConsole.Proofs.Logging.QuietReads
import NesConsole.Proofs.Safety.HostRun

/-! Two consoles that differ in what they report, through whole sessions of a host. As long as every
instruction lies at addresses that a read leaves alone they go on alike, with the same files in the
end; at the joypads they part. -/
namespace NesConsole

namespace Console
open MainBus (Twins)

def unlogged (c : Console) : Console := c.updateBus MainBus.unlogged

def Twin (c d : Console) : Prop := Cpu.Pair c.machine d.machine ∧ c.frameReady = d.frameReady

variable {α : Type} {c d : Console}

theorem Twin.unlogged_eq (h : c.Twin d) : c.unlogged = d.unlogged := by
  obtain ⟨⟨chip, b⟩, ready⟩ := c
  obtain ⟨⟨_, b'⟩, _⟩ := d
  obtain ⟨⟨rfl, hb⟩, rfl⟩ := h
  simp only [unlogged, updateBus, hb.unlogged_eq]

theorem alike_onMachine {x : EStateM CpuError (Wired Cpu MainBus) α} (h : c.Twin d)
    (hx : Alike Cpu.Pair (x c.machine) (x d.machine)) :
    Alike Twin (onMachine x c) (onMachine x d) := by
  obtain ⟨machine, ready⟩ := c
  obtain ⟨machine', _⟩ := d
  obtain ⟨-, rfl⟩ := h
  dsimp only [onMachine] at hx ⊢
  cases hs : x machine <;> cases ht : x machine' <;> rw [hs, ht] at hx
  case ok.ok => exact ⟨hx.1, hx.2, rfl⟩
  case error.error => exact ⟨congrArg _ hx.1, hx.2, rfl⟩
  all_goals exact hx.elim

theorem agree_onBus {x : EStateM BusError MainBus α} (h : Agree Twins x x) :
    Agree Twin (onBus x) (onBus x) := by
  intro ⟨⟨chip, b⟩, ready⟩ ⟨⟨_, b'⟩, _⟩ hc
  obtain ⟨⟨rfl, hb⟩, rfl⟩ := hc
  have hr := h b b' hb
  dsimp only [onBus, Wired.onBus]
  cases hs : x b <;> cases ht : x b' <;> rw [hs, ht] at hr
  case ok.ok => exact ⟨hr.1, ⟨rfl, hr.2⟩, rfl⟩
  case error.error => exact ⟨congrArg _ hr.1, ⟨rfl, hr.2⟩, rfl⟩
  all_goals exact hr.elim

theorem agree_modify {f : Console → Console} (h : ∀ c d, c.Twin d → (f c).Twin (f d)) :
    Agree (ε := ConsoleError) Twin (modify f) (modify f) :=
  fun c d hc => ⟨rfl, h c d hc⟩

theorem twin_heed (tick : Tick) (h : c.Twin d) : (c.heed tick).Twin (d.heed tick) := by
  obtain ⟨⟨chip, b⟩, ready⟩ := c
  obtain ⟨⟨_, b'⟩, _⟩ := d
  obtain ⟨⟨rfl, hb⟩, rfl⟩ := h
  obtain ⟨nmi, complete⟩ := tick
  cases nmi <;> cases complete <;> exact ⟨⟨rfl, hb⟩, rfl⟩

theorem agree_stepDot : Agree Twin stepDot stepDot :=
  .bind (agree_onBus (MainBus.agree_onPicture Ppu.agree_step)) fun tick =>
    agree_modify fun _ _ => twin_heed tick

theorem agree_serveTransfer : Agree Twin serveTransfer serveTransfer := by
  have htake : Agree Twins MainBus.takeTransfer MainBus.takeTransfer := by
    rintro b _ ⟨⟨journal, rfl⟩, hb⟩
    exact ⟨rfl, ⟨journal, rfl⟩, hb⟩
  refine .bind (agree_onBus htake) fun request => ?_
  cases request with
  | none => exact .pure ()
  | some page =>
    refine .bind (agree_onBus (MainBus.agree_transferObjects page)) fun _ => .bind_get ?_
    intro c d h
    have hcycles : c.cpu.cycles = d.cpu.cycles := congrArg Cpu.cycles h.1.1
    rw [hcycles]
    exact alike_onMachine h (Agree.stall _ _ _ h.1)

theorem alike_step (h : c.Twin d) (hquiet : Cpu.ReadsQuietly c.machine) :
    Alike Twin (step c) (step d) :=
  (alike_onMachine h (Cpu.alike_clock h.1 hquiet)).bind fun _ => .bind agree_stepDot fun _ =>
    .bind agree_stepDot fun _ => .bind agree_stepDot fun _ => agree_serveTransfer

def stepStarts : (n : Nat) → Console → List Console
  | 0, _ => []
  | n + 1, c =>
    if c.frameReady then []
    else match step c with
      | .ok _ d => c :: stepStarts n d
      | .error _ _ => [c]

theorem alike_stepUntilReady (n : Nat) (h : c.Twin d)
    (hquiet : ∀ s ∈ stepStarts n c, Cpu.ReadsQuietly s.machine) :
    Alike Twin (stepUntilReady n c) (stepUntilReady n d) := by
  induction n generalizing c d with
  | zero => exact ⟨rfl, h⟩
  | succ n ih =>
    rw [stepUntilReady_succ, stepUntilReady_succ, ← h.2]
    unfold stepStarts at hquiet
    split
    case isTrue => exact ⟨rfl, h⟩
    case isFalse hready =>
      rw [if_neg hready] at hquiet
      have hc : Cpu.ReadsQuietly c.machine := hquiet c (by split <;> exact List.mem_cons_self)
      have hr := alike_step h hc
      cases hs : step c <;> cases ht : step d <;> rw [hs, ht] at hr
      case ok.ok =>
        rw [hs] at hquiet
        rw [bind_ok hs, bind_ok ht]
        exact ih hr.2 fun s hmem => hquiet s (List.mem_cons_of_mem _ hmem)
      case error.error =>
        rw [bind_error hs, bind_error ht]
        exact hr
      all_goals exact hr.elim

theorem agree_reset : Agree Twin reset reset := by
  refine .bind (agree_modify ?_) fun _ => .bind ?_ fun _ => agree_modify ?_
  · rintro ⟨⟨chip, b⟩, ready⟩ ⟨⟨_, _⟩, _⟩ ⟨⟨rfl, ⟨journal, rfl⟩, hb⟩, rfl⟩
    exact ⟨⟨rfl, ⟨journal, rfl⟩, hb⟩, rfl⟩
  · exact fun c d h => alike_onMachine h (Agree.reset _ _ h.1)
  · exact fun c d h => ⟨h.1, rfl⟩

theorem twin_hold (pad : Nat) (buttons : UInt8) (h : c.Twin d) :
    (c.hold pad buttons).Twin (d.hold pad buttons) := by
  obtain ⟨⟨chip, b⟩, ready⟩ := c
  obtain ⟨⟨_, _⟩, _⟩ := d
  obtain ⟨⟨rfl, ⟨journal, rfl⟩, hb⟩, rfl⟩ := h
  match pad with
  | 0 | 1 => exact ⟨⟨rfl, ⟨journal, rfl⟩, hb⟩, rfl⟩
  | n + 2 => exact ⟨⟨rfl, ⟨_, rfl⟩, hb⟩, rfl⟩

def callStarts : HostCall → Console → List Console
  | .step, c => [c]
  | .runFrame, c => stepStarts longestFrame { c with frameReady := false }
  | .reset, _ | .hold .., _ => []

theorem alike_call (f : HostCall) (h : c.Twin d)
    (hquiet : ∀ s ∈ callStarts f c, Cpu.ReadsQuietly s.machine) :
    Alike Twin (call f c) (call f d) := by
  cases f with
  | reset => exact agree_reset c d h
  | step => exact alike_step h (hquiet c List.mem_cons_self)
  | runFrame =>
    exact alike_stepUntilReady (c := { c with frameReady := false })
      (d := { d with frameReady := false }) longestFrame ⟨h.1, rfl⟩ hquiet
  | hold pad buttons => exact ⟨rfl, twin_hold pad buttons h⟩

end Console

/-- Saving changes the work RAM alone. -/
theorem Cartridge.eq_of_persist {c c' : Cartridge} {disk disk' : Disk}
    (h : c.persist disk = .ok c' disk') : ∃ work, c' = { c with work := work } := by
  obtain ⟨header, board, work, path⟩ := c
  cases work with
  | absent | volatile =>
    cases h
    exact ⟨_, rfl⟩
  | battery ram =>
    obtain ⟨ram', _, -, hc⟩ := of_bind_ok h
    cases hc
    exact ⟨_, rfl⟩

theorem Cartridge.board_persist {c c' : Cartridge} {disk disk' : Disk}
    (h : c.persist disk = .ok c' disk') : c'.board = c.board := by
  obtain ⟨work, rfl⟩ := eq_of_persist h
  rfl

theorem Console.persist_ok {c : Console} {k : Cartridge} {disk disk' : Disk}
    (h : c.bus.video.cartridge.persist disk = .ok k disk') :
    c.persist disk = .ok (c.updateBus fun bus =>
      { bus with video := { bus.video with cartridge := k } }) disk' :=
  bind_ok h

theorem Console.persist_error {c : Console} {e : DiskError} {disk disk' : Disk}
    (h : c.bus.video.cartridge.persist disk = .error e disk') :
    c.persist disk = .error e disk' :=
  bind_error h

/-! ### Sessions -/

inductive SessionCall where
  | call (f : HostCall)
  | persist

inductive Reply where
  | done
  | refused (error : ConsoleError)
  | unsaved (error : DiskError)

namespace SessionCall

def run : SessionCall → Console × Disk → Reply × Console × Disk
  | .call f, (c, disk) =>
    match Console.call f c with
    | .ok _ c => (.done, c, disk)
    | .error e c => (.refused e, c, disk)
  | .persist, (c, disk) =>
    match c.persist disk with
    | .ok c disk => (.done, c, disk)
    | .error e disk => (.unsaved e, c, disk)

theorem run_done {f : HostCall} {c d : Console} (disk : Disk) (h : Console.call f c = .ok () d) :
    run (.call f) (c, disk) = (.done, d, disk) := by
  simp only [run, h]

def starts : SessionCall → Console → List Console
  | .call f, c => Console.callStarts f c
  | .persist, _ => []

def Same (s t : Reply × Console × Disk) : Prop :=
  s.1 = t.1 ∧ s.2.1.Twin t.2.1 ∧ s.2.2 = t.2.2

theorem same_persist {c d : Console} (h : c.Twin d) (disk : Disk) :
    Same (run .persist (c, disk)) (run .persist (d, disk)) := by
  obtain ⟨⟨chip, b⟩, ready⟩ := c
  obtain ⟨⟨_, _⟩, _⟩ := d
  obtain ⟨⟨rfl, ⟨journal, rfl⟩, hb⟩, rfl⟩ := h
  unfold run
  dsimp only
  cases hk : b.video.cartridge.persist disk with
  | ok k disk' =>
    have hwhole : k.board.Whole := by
      rw [Cartridge.board_persist hk]
      exact hb
    rw [Console.persist_ok (c := ⟨⟨chip, b⟩, ready⟩) hk,
      Console.persist_ok (c := ⟨⟨chip, b.withJournal journal⟩, ready⟩) hk]
    exact ⟨rfl, ⟨⟨rfl, ⟨journal, rfl⟩, hwhole⟩, rfl⟩, rfl⟩
  | error e disk' =>
    rw [Console.persist_error (c := ⟨⟨chip, b⟩, ready⟩) hk,
      Console.persist_error (c := ⟨⟨chip, b.withJournal journal⟩, ready⟩) hk]
    exact ⟨rfl, ⟨⟨rfl, ⟨journal, rfl⟩, hb⟩, rfl⟩, rfl⟩

theorem same_run (r : SessionCall) {c d : Console} (h : c.Twin d) (disk : Disk)
    (hquiet : ∀ s ∈ r.starts c, Cpu.ReadsQuietly s.machine) :
    Same (r.run (c, disk)) (r.run (d, disk)) := by
  cases r with
  | persist => exact same_persist h disk
  | call f =>
    have hr := Console.alike_call f h hquiet
    unfold run
    dsimp only
    cases hs : Console.call f c <;> cases ht : Console.call f d <;> rw [hs, ht] at hr
    case ok.ok => exact ⟨rfl, hr.2, rfl⟩
    case error.error => exact ⟨congrArg Reply.refused hr.1, hr.2, rfl⟩
    all_goals exact hr.elim

end SessionCall

def session : List SessionCall → Console × Disk → List (Reply × Console × Disk)
  | [], _ => []
  | r :: rs, s => r.run s :: session rs (r.run s).2

def sessionStarts : List SessionCall → Console × Disk → List Console
  | [], _ => []
  | r :: rs, s => r.starts s.1 ++ sessionStarts rs (r.run s).2

theorem mem_sessionStarts {r : SessionCall} {rs : List SessionCall} {c s : Console} {disk : Disk} :
    s ∈ sessionStarts (r :: rs) (c, disk) ↔
      s ∈ r.starts c ∨ s ∈ sessionStarts rs (r.run (c, disk)).2 :=
  List.mem_append

def Reply.unlogged (s : Reply × Console × Disk) : Reply × Console × Disk :=
  (s.1, s.2.1.unlogged, s.2.2)

theorem sessions_alike (rs : List SessionCall) {c d : Console} (h : c.Twin d) (disk : Disk)
    (hquiet : ∀ s ∈ sessionStarts rs (c, disk), Cpu.ReadsQuietly s.machine) :
    (session rs (c, disk)).map Reply.unlogged = (session rs (d, disk)).map Reply.unlogged := by
  induction rs generalizing c d disk with
  | nil => rfl
  | cons r rs ih =>
    have hfirst := SessionCall.same_run r h disk fun s hs => hquiet s (List.mem_append_left _ hs)
    have hrest : ∀ s ∈ sessionStarts rs (r.run (c, disk)).2, Cpu.ReadsQuietly s.machine :=
      fun s hs => hquiet s (List.mem_append_right _ hs)
    unfold session
    generalize r.run (c, disk) = s at hfirst hrest
    generalize r.run (d, disk) = t at hfirst
    obtain ⟨reply, c', disk'⟩ := s
    obtain ⟨_, d', _⟩ := t
    obtain ⟨rfl, htwin, rfl⟩ := hfirst
    rw [List.map_cons, List.map_cons, ih htwin disk' hrest]
    simp only [Reply.unlogged, htwin.unlogged_eq]

/-- Around an accepted image, how much is reported changes nothing else, as long as each
instruction lies at addresses that a read leaves alone. -/
theorem logging_changes_nothing {image : Array UInt8} {path : Option String} {loading : Disk}
    {cartridge : Cartridge} {events : List CartridgeEvent}
    (himage : Cartridge.ofImage image path loading = .ok (cartridge, events))
    (journal journal' : Journal) (rs : List SessionCall) (disk : Disk)
    (hquiet : ∀ s ∈ sessionStarts rs (.wire cartridge journal, disk),
      Cpu.ReadsQuietly s.machine) :
    (session rs (.wire cartridge journal, disk)).map Reply.unlogged =
      (session rs (.wire cartridge journal', disk)).map Reply.unlogged := by
  have hwhole : (MainBus.wire cartridge journal).Whole := Cartridge.whole_ofImage himage
  have htwin : (Console.wire cartridge journal).Twin (.wire cartridge journal') :=
    ⟨⟨rfl, ⟨_, rfl⟩, hwhole⟩, rfl⟩
  exact sessions_alike rs htwin disk hquiet

/-! A program whose reset vector points at the first joypad. Before it is strobed that reads as the
opcode of a return from interrupt, and each read shifts it. -/

def padProgram : Array UInt8 :=
  Array.ofFn fun i : Fin 0x4000 =>
    if i.val = 0x3FFC then 0x16 else if i.val = 0x3FFD then 0x40 else 0

def padHost : List SessionCall := .call .reset :: List.replicate 8 (.call .step)

def padShifts (journal : Journal) : List UInt8 :=
  (session padHost (.wire (plainCartridge padProgram) journal, {})).map
    fun s => s.2.1.bus.peripherals.first.shift

theorem read?_padCartridge {address : UInt16} (h : 0x8000 ≤ address) :
    (plainCartridge padProgram).read? address =
      some (if address.toNat % 0x4000 = 0x3FFC then 0x16
        else if address.toNat % 0x4000 = 0x3FFD then 0x40 else 0) := by
  have hsize : Rom.size ⟨padProgram⟩ = 0x4000 := by
    simp only [Rom.size, padProgram, Array.size_ofFn]
  have hlt : address.toNat % 0x4000 < 0x4000 := Nat.mod_lt _ (by decide)
  have hread : (plainCartridge padProgram).read? address = padProgram[address.toNat % 0x4000]? := by
    simp only [Cartridge.read?, h, if_true, plainCartridge, Board.read?, hsize, Nat.lt_irrefl,
      if_false, Rom.get?]
  rw [hread]
  simp only [padProgram, Array.getElem?_ofFn, hlt, dif_pos]

theorem padShifts_eq (journal : Journal) : padShifts journal =
    0 :: (session (List.replicate 8 (.call .step))
      (.started (plainCartridge padProgram) journal Peripherals.firstPadAddress, {})).map
        fun s => s.2.1.bus.peripherals.first.shift := by
  have hlow : (plainCartridge padProgram).read? resetVector =
      some (lowByte Peripherals.firstPadAddress) := by
    rw [read?_padCartridge (by decide)]
    decide
  have hhigh : (plainCartridge padProgram).read? (resetVector + 1) =
      some (highByte Peripherals.firstPadAddress) := by
    rw [read?_padCartridge (by decide)]
    decide
  have hrun : SessionCall.run (.call .reset) (.wire (plainCartridge padProgram) journal, {}) =
      (.done, .started (plainCartridge padProgram) journal Peripherals.firstPadAddress, {}) :=
    SessionCall.run_done {} (Console.reset_wire journal hlow hhigh)
  rw [padShifts, padHost, session, hrun]
  rfl

/-- Where the program runs from a joypad, a trace shifts the joypad once more. -/
theorem logging_shows_at_joypads :
    Cartridge.ofImage (plainHeader ++ padProgram) none {} = .ok (plainCartridge padProgram,
      [.loaded ⟨1, 0, 0, 0, .horizontal, false, false, false⟩ true]) ∧
    (session padHost (.wire (plainCartridge padProgram) {}, {})).map Reply.unlogged ≠
      (session padHost (.wire (plainCartridge padProgram) { detail := some .trace }, {})).map
        Reply.unlogged := by
  have hsize : padProgram.size = 0x4000 := by simp only [padProgram, Array.size_ofFn]
  refine ⟨ofImage_plain hsize {}, fun hsame => ?_⟩
  have hunlogged (journal : Journal) :
      ((session padHost (.wire (plainCartridge padProgram) journal, {})).map Reply.unlogged).map
        (fun s => s.2.1.bus.peripherals.first.shift) = padShifts journal := by
    rw [List.map_map, padShifts]
    exact List.map_congr_left fun _ _ => rfl
  have hshifts : padShifts {} = padShifts { detail := some .trace } :=
    (hunlogged {}).symm.trans ((congrArg _ hsame).trans (hunlogged _))
  -- Each read shifts in a one: plainly the opcode is read once, under a trace twice.
  have hquiet : padShifts {} = [0, 0, 0, 0, 0, 0, 0, 0, 0x80] := by
    rw [padShifts_eq]
    decide +kernel
  have htraced : padShifts { detail := some .trace } = [0, 0, 0, 0, 0, 0, 0, 0, 0xC0] := by
    rw [padShifts_eq]
    decide +kernel
  rw [hquiet, htraced] at hshifts
  exact absurd hshifts (by decide)

theorem Console.Idle.stepStarts {cartridge : Cartridge} {pc : UInt16} {c : Console}
    (hpc : cartridge.Idles pc) (n : Nat) (h : c.Idle cartridge pc)
    (hlimit : c.cpu.cycles + n < cycleLimit) :
    ∀ s ∈ Console.stepStarts n c, s.Idle cartridge pc := by
  induction n generalizing c with
  | zero => exact fun s hs => absurd hs List.not_mem_nil
  | succ n ih =>
    obtain ⟨d, hstep, hd, hcycles⟩ := h.step hpc (by omega)
    intro s hs
    unfold Console.stepStarts at hs
    split at hs
    · cases hs
    · rw [hstep, List.mem_cons] at hs
      rcases hs with rfl | hs
      · exact h
      · exact ih hd (by omega) s hs

def briefHost : List SessionCall := [.call .reset, .call .runFrame, .persist]

theorem readsQuietly_briefHost (disk : Disk) :
    ∀ s ∈ sessionStarts briefHost (.wire idleCartridge {}, disk), Cpu.ReadsQuietly s.machine := by
  have huntraced : ({} : Journal).keeps .trace = false := rfl
  obtain ⟨d, hreset, hidle, hcycles⟩ := Console.idle_reset idleCartridge_idles huntraced
  have hrun : SessionCall.run (.call .reset) (.wire idleCartridge {}, disk) = (.done, d, disk) :=
    SessionCall.run_done disk hreset
  have hstart : Console.Idle idleCartridge 0x8000 { d with frameReady := false } :=
    ⟨hidle.cpu, hidle.cartridge, hidle.untraced, hidle.picture, hidle.noTransfer⟩
  have hlimit : ({ d with frameReady := false } : Console).cpu.cycles + Console.longestFrame <
      cycleLimit := by
    have hzero : ({ d with frameReady := false } : Console).cpu.cycles = 0 := hcycles
    rw [hzero]
    decide
  intro s hs
  have hframe : s ∈ Console.stepStarts Console.longestFrame { d with frameReady := false } := by
    rcases mem_sessionStarts.1 hs with hnone | hs
    · exact absurd hnone List.not_mem_nil
    · rw [hrun] at hs
      rcases mem_sessionStarts.1 hs with hs | hs
      · exact hs
      · rcases mem_sessionStarts.1 hs with hnone | hnone
        · exact absurd hnone List.not_mem_nil
        · exact absurd hnone List.not_mem_nil
  have hjump : s.machine.chip.registers.pc = 0x8000 :=
    (hstart.stepStarts idleCartridge_idles _ hlimit s hframe).cpu.atJump
  exact Cpu.readsQuietly_cartridge (by rw [hjump]; decide) (by rw [hjump]; decide)

theorem logging_changes_nothing_brief :
    Cartridge.ofImage (plainHeader ++ idleProgram) none {} =
      .ok (idleCartridge, [.loaded idleCartridge.header true]) ∧
    (∀ s ∈ sessionStarts briefHost (.wire idleCartridge {}, {}), Cpu.ReadsQuietly s.machine) ∧
    (session briefHost (.wire idleCartridge {}, {})).map Reply.unlogged =
      (session briefHost (.wire idleCartridge { detail := some .trace }, {})).map
        Reply.unlogged := by
  have hsize : idleProgram.size = 0x4000 := by simp only [idleProgram, Array.size_ofFn]
  have himage := ofImage_plain hsize {}
  exact ⟨himage, readsQuietly_briefHost {},
    logging_changes_nothing himage {} { detail := some .trace } briefHost {}
      (readsQuietly_briefHost {})⟩

end NesConsole
