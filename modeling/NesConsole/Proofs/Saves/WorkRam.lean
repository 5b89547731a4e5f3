import NesConsole.Proofs.Logging.Sessions
import NesConsole.Proofs.Processor.Recorded
import NesConsole.Proofs.Saves.Histories

/-! What a session does to the work RAM and to the disk. Only the processor reaches the work RAM, at
`$6000` to `$7FFF`, and only a persist reaches the disk. So both are where the acts of the session
take them, whatever else the console does meanwhile. -/
namespace NesConsole

namespace SaveAct

def ofWrite? (w : UInt16 × UInt8) : Option SaveAct :=
  if 0x6000 ≤ w.1 ∧ w.1 < 0x8000 then some (.write (w.1 - 0x6000).toNat w.2) else none

def runOn : SaveAct → WorkRam × Disk → WorkRam × Disk
  | act, (.battery b, d) => (.battery (act.run (b, d)).1, (act.run (b, d)).2)
  | .write offset data, (.volatile ram, d) => (.volatile (ram.write offset data), d)
  | .persist, (.volatile ram, d) => (.volatile ram, d)
  | _, (.absent, d) => (.absent, d)

def worked (start : WorkRam × Disk) : List SaveAct → WorkRam × Disk
  | [] => start
  | act :: past => act.runOn (worked start past)

variable {past : List SaveAct}

theorem worked_battery (b : BatteryRam 0x2000) (d : Disk) (past : List SaveAct) :
    worked (.battery b, d) past =
      (.battery (afterAll (b, d) past).1, (afterAll (b, d) past).2) := by
  induction past with
  | nil => rfl
  | cons act past ih => rw [worked, ih, runOn, afterAll]

/-- Without a battery the disk stays. -/
theorem worked_without {work : WorkRam} (h : ∀ b, work ≠ .battery b) (d : Disk)
    (past : List SaveAct) : (worked (work, d) past).2 = d ∧
      ∀ b, (worked (work, d) past).1 ≠ .battery b := by
  induction past with
  | nil => exact ⟨rfl, h⟩
  | cons act past ih =>
    rw [worked]
    generalize worked (work, d) past = s at ih
    obtain ⟨work', d'⟩ := s
    cases work' with
    | battery b => exact absurd rfl (ih.2 b)
    | absent | volatile => cases act <;> exact ⟨ih.1, by rintro b ⟨⟩⟩

/-- Without a write there is nothing to save. -/
theorem afterAll_of_not_wrote {size : Nat} {start : BatteryRam size × Disk}
    (hclean : start.1.dirty = false) (h : ¬Wrote past) : afterAll start past = start := by
  induction past with
  | nil => rfl
  | cons act past ih =>
    have hearlier : ¬Wrote past := fun ⟨offset, data, hmem⟩ =>
      h ⟨offset, data, List.mem_cons_of_mem _ hmem⟩
    cases act with
    | write offset data => exact absurd ⟨offset, data, List.mem_cons_self⟩ h
    | persist => rw [afterAll, ih hearlier, run, BatteryRam.persist_of_clean hclean]

end SaveAct

/-! ### The bus -/

theorem Cartridge.work_write (c : Cartridge) (d : Disk) (address : UInt16) (data : UInt8) :
    ((c.write address data).work, d) =
      ((SaveAct.ofWrite? (address, data)).elim id SaveAct.runOn) (c.work, d) := by
  obtain ⟨header, board, work, path⟩ := c
  unfold Cartridge.write SaveAct.ofWrite?
  by_cases hprogram : 0x8000 ≤ address
  · rw [if_pos hprogram, if_neg fun h => UInt16.not_le.2 h.2 hprogram]
    rfl
  · by_cases hwork : 0x6000 ≤ address
    · rw [if_neg hprogram, if_pos hwork, if_pos ⟨hwork, UInt16.not_le.1 hprogram⟩]
      cases work <;> rfl
    · rw [if_neg hprogram, if_neg hwork, if_neg fun h => hwork h.1]
      rfl

/-- A persist of a cartridge is one of its battery. -/
theorem Cartridge.work_persist (c : Cartridge) (d : Disk) : match c.persist d with
    | .ok k d' => (k.work, d') = SaveAct.persist.runOn (c.work, d)
    | .error _ d' => (c.work, d') = SaveAct.persist.runOn (c.work, d) := by
  obtain ⟨header, board, work, path⟩ := c
  cases work with
  | absent | volatile => rfl
  | battery ram =>
    dsimp only [SaveAct.runOn, SaveAct.run]
    cases hpersist : ram.persist d with
    | ok ram' d' =>
      have hsaved : Cartridge.persist ⟨header, board, .battery ram, path⟩ d = _ := bind_ok hpersist
      rw [hsaved]
      rfl
    | error e d' =>
      have hrefused : Cartridge.persist ⟨header, board, .battery ram, path⟩ d = _ :=
        bind_error hpersist
      rw [hrefused]

theorem VideoBus.keeps_work {work : WorkRam} (address : UInt16) (data : UInt8) :
    Keeps (fun v => v.cartridge.work = work) (VideoBus.write address data) := by
  intro v h
  unfold VideoBus.write
  dsimp only
  cases videoMap.owner? (address % 0x4000) with
  | none => exact h
  | some device =>
    cases device with
    | nameTables | nameTablesAgain | palette => exact h
    | patterns =>
      dsimp only
      cases hwrite : v.cartridge.writePattern? (address % 0x4000) data with
      | none => exact h
      | some cartridge =>
        obtain ⟨board, -, rfl⟩ := Option.map_eq_some_iff.1 hwrite
        exact h

namespace MainBus

structure Worked (start : WorkRam × Disk) (past : List SaveAct) (d : Disk) (b : MainBus) :
    Prop where
  whole : b.Whole
  work : (b.video.cartridge.work, d) = SaveAct.worked start past

variable {start : WorkRam × Disk} {past : List SaveAct} {d : Disk}

theorem worked_read (address : UInt16) : Keeps (Worked start past d) (MainBus.read address) := by
  intro b h
  have hvideo := keeps_video h.whole address b rfl
  cases hread : MainBus.read address b <;> rw [hread] at hvideo
  all_goals
    refine ⟨?_, ?_⟩
    · rw [Whole, hvideo]
      exact h.whole
    · rw [hvideo]
      exact h.work

theorem Worked.write_picture {b : MainBus} (h : b.Worked start past d) (address : UInt16)
    (data : UInt8) : ∃ b', onPicture (Ppu.writeRegister address data) b = .ok () b' ∧
      b'.Worked start past d := by
  by_cases hregister : address.toNat % 8 = 7
  · obtain ⟨v', hwrite, hwhole⟩ := VideoBus.exists_write h.whole b.picture.v.busAddress data
    have hwork := VideoBus.keeps_work b.picture.v.busAddress data b.video rfl
    rw [hwrite] at hwork
    obtain ⟨p', hrun⟩ := Ppu.writeRegister_data hregister hwrite
    simp only [onPicture, hrun]
    refine ⟨_, rfl, hwhole, ?_⟩
    rw [← h.work]
    exact congrArg (·, d) hwork
  · obtain ⟨p', hrun⟩ := Ppu.writeRegister_other b.picture b.video hregister data
    simp only [onPicture, hrun]
    exact ⟨_, rfl, h.whole, h.work⟩

/-- Only the window of the cartridge leads to the work RAM. -/
theorem ofWrite?_elsewhere {address : UInt16} (h : mainMap.owner? address ≠ some .cartridge)
    (data : UInt8) : SaveAct.ofWrite? (address, data) = none :=
  if_neg fun hwindow => h (mainMap_cartridge (UInt16.le_trans (by decide) hwindow.1))

theorem worked_write (address : UInt16) (data : UInt8) : Leads (Worked start past d)
    (MainBus.write address data)
    (fun _ => Worked start ((SaveAct.ofWrite? (address, data)).toList ++ past) d)
    fun _ => Worked start past d := by
  intro b h
  have helsewhere (h : mainMap.owner? address ≠ some .cartridge) := ofWrite?_elsewhere h data
  unfold MainBus.write
  cases hdevice : mainMap.owner? address with
  | none => exact h
  | some device =>
    cases device with
    | ram | ramAgain | peripherals =>
      rw [helsewhere (by rw [hdevice]; rintro ⟨⟩)]
      exact ⟨h.whole, h.work⟩
    | picture =>
      obtain ⟨b', hwrite, h'⟩ := h.write_picture address data
      rw [helsewhere (by rw [hdevice]; rintro ⟨⟩)]
      dsimp only
      rw [hwrite]
      exact h'
    | cartridge =>
      refine ⟨Cartridge.whole_write h.whole address data, ?_⟩
      have hwork := b.video.cartridge.work_write d address data
      rw [h.work] at hwork
      refine hwork.trans ?_
      cases SaveAct.ofWrite? (address, data) <;> rfl

end MainBus

/-! ### The processor -/

namespace Recorded

def acts (r : Recorded MainBus) : List SaveAct := r.writes.filterMap SaveAct.ofWrite?

def Worked (start : WorkRam × Disk) (past : List SaveAct) (d : Disk) (r : Recorded MainBus) :
    Prop :=
  r.bus.Worked start (r.acts ++ past) d

instance (start : WorkRam × Disk) (past : List SaveAct) (d : Disk) :
    BusKeeps (Worked start past d) where
  read address := keeps_recording fun b writes h => by
    have hr := MainBus.worked_read address b h
    dsimp only [Bus.read]
    cases hread : MainBus.read address b <;> rw [hread] at hr <;> exact hr
  write address data := keeps_recording fun b writes h => by
    have hr := MainBus.worked_write address data b h
    dsimp only [Bus.write]
    cases hwrite : MainBus.write address data b <;> rw [hwrite] at hr
    case error => exact hr
    case ok _ b' =>
      have hacts : acts ⟨b', [(address, data)] ++ writes⟩ =
          (SaveAct.ofWrite? (address, data)).toList ++ acts ⟨b, writes⟩ := by
        unfold acts
        rw [List.filterMap_append]
        cases hact : SaveAct.ofWrite? (address, data) <;> simp [hact]
      change b'.Worked start (acts ⟨b', [(address, data)] ++ writes⟩ ++ past) d
      rw [hacts, List.append_assoc]
      exact hr
  report event r h := ⟨h.whole, h.work⟩

end Recorded

namespace Cpu

def acts (w : Wired Cpu MainBus) : List SaveAct := (recorded w).acts

variable {start : WorkRam × Disk} {past : List SaveAct} {d : Disk}

theorem bus_recorded (w : Wired Cpu MainBus) : (recorded w).bus = (stateAfter clock w).bus := by
  have hr := Agree.clock (R := Recorded.Erases) (recorder w) w ⟨rfl, rfl⟩
  unfold recorded stateAfter
  cases hx : clock (recorder w) <;> cases hy : clock w <;> rw [hx, hy] at hr
  case ok.ok => exact hr.2.2
  case error.error => exact hr.2.2
  all_goals exact hr.elim

/-- The writes of a cycle account for what the cycle does to the work RAM. -/
theorem worked_clock {w : Wired Cpu MainBus} (h : w.bus.Worked start past d) :
    Goes (· = w) clock fun v => v.bus.Worked start (acts w ++ past) d := by
  have hrecord := BusKeeps.recorded (P := Recorded.Worked start past d) (w := w) h
  unfold Recorded.Worked at hrecord
  rw [bus_recorded] at hrecord
  unfold stateAfter at hrecord
  intro v hv
  rw [hv]
  cases hx : clock w <;> rw [hx] at hrecord <;> exact hrecord

end Cpu

/-! ### The console -/

namespace Console

def Worked (start : WorkRam × Disk) (past : List SaveAct) (d : Disk) (c : Console) : Prop :=
  c.bus.Worked start past d

variable {α : Type} {start : WorkRam × Disk} {past : List SaveAct} {d : Disk} {c : Console}

theorem keeps_onBus {P : MainBus → Prop} {x : EStateM BusError MainBus α} (h : Keeps P x) :
    Keeps (fun c => P c.bus) (onBus x) := by
  intro ⟨⟨chip, b⟩, ready⟩ hb
  have hr := h b hb
  dsimp only [onBus, Wired.onBus]
  cases hx : x b <;> rw [hx] at hr <;> exact hr

theorem goes_onMachine {P Q : Wired Cpu MainBus → Prop}
    {x : EStateM CpuError (Wired Cpu MainBus) α} (h : Goes P x Q) :
    Goes (fun c => P c.machine) (onMachine x) fun c => Q c.machine := by
  intro ⟨machine, ready⟩ hb
  have hr := h machine hb
  dsimp only [onMachine]
  cases hx : x machine <;> rw [hx] at hr <;> exact hr

theorem keeps_stepDot {P : MainBus → Prop} (h : Keeps P MainBus.stepDot) :
    Keeps (fun c => P c.bus) stepDot := by
  refine .bind (keeps_onBus h) fun tick c h => ?_
  obtain ⟨nmi, complete⟩ := tick
  cases nmi <;> cases complete <;> exact h

theorem keeps_serveTransfer {P : MainBus → Prop} (htake : Keeps P MainBus.takeTransfer)
    (hcopy : ∀ page, Keeps P (MainBus.transferObjects page)) :
    Keeps (fun c => P c.bus) serveTransfer := by
  have hstall (cycles : Nat) :
      Keeps (fun w : Wired Cpu MainBus => P w.bus) (Cpu.stall cycles) := by
    intro ⟨chip, b⟩ h
    unfold Cpu.stall
    by_cases hlimit : chip.remaining + cycles < waitLimit
    · simp only [hlimit, if_true]
      exact h
    · simp only [hlimit, if_false]
      exact h
  refine .bind (keeps_onBus htake) fun request => ?_
  cases request with
  | none => exact .pure ()
  | some page =>
    exact .bind (keeps_onBus (hcopy page)) fun _ => Leads.bind_get fun c =>
      goes_onMachine (hstall _)

theorem keeps_reset {P : MainBus → Prop} (hreset : ∀ b, P b → P b.reset)
    (hread : ∀ address, Keeps P (MainBus.read address))
    (hreport : ∀ event b, P b → P (CpuBus.report event b)) :
    Keeps (fun c => P c.bus) reset := by
  have hbyte (address : UInt16) : Keeps (fun w : Wired Cpu MainBus => P w.bus)
      (Wired.read address) := .onBus (hread address)
  have hvector : Keeps (fun w : Wired Cpu MainBus => P w.bus) Cpu.reset :=
    .bind (Cpu.keeps_access (.bind (hbyte _) fun _ => .bind (hbyte _) fun _ => .pure _)) fun _ =>
      .bind (fun _ h => h) fun _ _ h => hreport _ _ h
  exact .bind (fun c h => hreset c.bus h) fun _ => .bind (goes_onMachine hvector) fun _ =>
    fun _ h => h

theorem worked_stepDot : Keeps (Worked start past d) stepDot := by
  refine keeps_stepDot fun b h => ?_
  obtain ⟨p', hstep⟩ := MainBus.exists_stepDot h.whole
  rw [hstep]
  exact ⟨h.whole, h.work⟩

theorem worked_serveTransfer : Keeps (Worked start past d) serveTransfer :=
  keeps_serveTransfer (fun _ h => ⟨h.whole, h.work⟩) fun page =>
    MainBus.leads_transfer MainBus.worked_read (fun _ _ h => ⟨h.whole, h.work⟩)
      (fun _ _ h => ⟨h.whole, h.work⟩) page

/-- A step does to the work RAM what the writes of its cycle do. -/
theorem worked_step (h : c.Worked start past d) :
    (stateAfter step c).Worked start (Cpu.acts c.machine ++ past) d := by
  have hclock := goes_onMachine (Cpu.worked_clock (w := c.machine) h)
  have hstep : Goes (fun s => s.machine = c.machine) step
      (Worked start (Cpu.acts c.machine ++ past) d) :=
    .bind hclock fun _ => .bind worked_stepDot fun _ => .bind worked_stepDot fun _ =>
      .bind worked_stepDot fun _ => worked_serveTransfer
  exact hstep.stateAfter rfl

def actsFrom (starts : List Console) : List SaveAct :=
  starts.reverse.flatMap fun c => Cpu.acts c.machine

theorem actsFrom_cons (c : Console) (starts : List Console) :
    actsFrom (c :: starts) = actsFrom starts ++ Cpu.acts c.machine := by
  simp [actsFrom]

theorem worked_stepUntilReady (n : Nat) (h : c.Worked start past d) :
    (stateAfter (stepUntilReady n) c).Worked start (actsFrom (stepStarts n c) ++ past) d := by
  induction n generalizing c past with
  | zero => exact h
  | succ n ih =>
    unfold stateAfter stepStarts
    rw [stepUntilReady_succ]
    by_cases hready : c.frameReady = true
    · rw [if_pos hready, if_pos hready]
      exact h
    · rw [if_neg hready, if_neg hready]
      have hstep := worked_step h
      unfold stateAfter at hstep
      cases hx : step c with
      | ok _ d =>
        rw [hx] at hstep
        rw [bind_ok hx, actsFrom_cons, List.append_assoc]
        exact ih hstep
      | error e d =>
        rw [hx] at hstep
        rw [bind_error hx, actsFrom_cons]
        exact hstep

theorem worked_reset : Keeps (Worked start past d) reset :=
  keeps_reset (fun _ h => ⟨h.whole, h.work⟩) MainBus.worked_read fun _ _ h => ⟨h.whole, h.work⟩

theorem worked_hold (h : c.Worked start past d) (pad : Nat) (buttons : UInt8) :
    (c.hold pad buttons).Worked start past d := by
  match pad with
  | 0 | 1 | n + 2 => exact ⟨h.whole, h.work⟩

theorem worked_call (f : HostCall) (h : c.Worked start past d) :
    (stateAfter (call f) c).Worked start (actsFrom (callStarts f c) ++ past) d := by
  cases f with
  | reset => exact worked_reset.stateAfter h
  | hold pad buttons => exact worked_hold h pad buttons
  | step =>
    have hacts : actsFrom (callStarts .step c) = Cpu.acts c.machine := by
      simp [callStarts, actsFrom]
    rw [hacts]
    exact worked_step h
  | runFrame => exact worked_stepUntilReady (c := { c with frameReady := false }) longestFrame h

end Console

/-! ### Sessions -/

namespace SessionCall

def acts : SessionCall → Console → List SaveAct
  | .call f, c => Console.actsFrom (Console.callStarts f c)
  | .persist, _ => [.persist]

variable {start : WorkRam × Disk} {past : List SaveAct} {d : Disk} {c : Console}

theorem worked_persist (h : c.Worked start past d) :
    (run .persist (c, d)).2.1.Worked start (.persist :: past) (run .persist (c, d)).2.2 := by
  obtain ⟨hwhole, hwork⟩ := h
  have hpersist := c.bus.video.cartridge.work_persist d
  rw [hwork] at hpersist
  unfold run
  dsimp only
  cases hk : c.bus.video.cartridge.persist d with
  | ok k d' =>
    have hboard : k.board.Whole := by
      rw [Cartridge.board_persist hk]
      exact hwhole
    rw [hk] at hpersist
    rw [Console.persist_ok hk]
    exact ⟨hboard, hpersist⟩
  | error e d' =>
    rw [hk] at hpersist
    rw [Console.persist_error hk]
    exact ⟨hwhole, hpersist⟩

theorem worked_run (r : SessionCall) (h : c.Worked start past d) :
    (r.run (c, d)).2.1.Worked start (r.acts c ++ past) (r.run (c, d)).2.2 := by
  cases r with
  | persist => exact worked_persist h
  | call f =>
    have hcall := Console.worked_call f h
    unfold stateAfter at hcall
    unfold run
    dsimp only
    cases hx : Console.call f c <;> rw [hx] at hcall <;> exact hcall

end SessionCall

def sessionEnd : List SessionCall → Console × Disk → Console × Disk
  | [], s => s
  | r :: rs, s => sessionEnd rs (r.run s).2

theorem sessionStarts_append (rs rs' : List SessionCall) (s : Console × Disk) :
    sessionStarts (rs ++ rs') s = sessionStarts rs s ++ sessionStarts rs' (sessionEnd rs s) := by
  induction rs generalizing s with
  | nil => rfl
  | cons r rs ih => simp [sessionStarts, sessionEnd, ih]

def sessionActs : List SessionCall → Console × Disk → List SaveAct
  | [], _ => []
  | r :: rs, s => sessionActs rs (r.run s).2 ++ r.acts s.1

theorem worked_session {start : WorkRam × Disk} {past : List SaveAct} {s : Console × Disk}
    (h : s.1.Worked start past s.2) (rs : List SessionCall) :
    (sessionEnd rs s).1.Worked start (sessionActs rs s ++ past) (sessionEnd rs s).2 := by
  induction rs generalizing s past with
  | nil => exact h
  | cons r rs ih =>
    unfold sessionEnd sessionActs
    rw [List.append_assoc]
    exact ih (r.worked_run h)

/-- A session on a console around an accepted image takes work RAM and disk where its acts do. -/
theorem worked_image {image : Array UInt8} {path : Option String} {loading : Disk}
    {cartridge : Cartridge} {events : List CartridgeEvent}
    (himage : Cartridge.ofImage image path loading = .ok (cartridge, events)) (journal : Journal)
    (rs : List SessionCall) (disk : Disk) :
    let s := sessionEnd rs (.wire cartridge journal, disk)
    (s.1.cartridge.work, s.2) = SaveAct.worked (cartridge.work, disk)
      (sessionActs rs (.wire cartridge journal, disk)) := by
  intro s
  have hwire : (Console.wire cartridge journal).Worked (cartridge.work, disk) [] disk :=
    ⟨Cartridge.whole_ofImage himage, rfl⟩
  have hend := (worked_session (s := (.wire cartridge journal, disk)) hwire rs).work
  rwa [List.append_nil] at hend

/-! A session that writes the work RAM has a step that does. -/

def Console.WritesWork (starts : List Console) : Prop :=
  ∃ c ∈ starts, ∃ w ∈ Cpu.writes c.machine, 0x6000 ≤ w.1 ∧ w.1 < 0x8000

instance (starts : List Console) : Decidable (Console.WritesWork starts) :=
  inferInstanceAs (Decidable (∃ c ∈ starts, ∃ w ∈ Cpu.writes c.machine,
    0x6000 ≤ w.1 ∧ w.1 < 0x8000))

theorem Console.writesWork_of_wrote {starts : List Console} (h : SaveAct.Wrote (actsFrom starts)) :
    WritesWork starts := by
  obtain ⟨offset, data, hmem⟩ := h
  obtain ⟨c, hc, hact⟩ := List.mem_flatMap.1 hmem
  obtain ⟨w, hw, hwrite⟩ := List.mem_filterMap.1 hact
  refine ⟨c, List.mem_reverse.1 hc, w, List.mem_reverse.2 hw, ?_⟩
  unfold SaveAct.ofWrite? at hwrite
  split at hwrite
  case isTrue hwindow => exact hwindow
  case isFalse => cases hwrite

theorem writesWork_of_wrote {rs : List SessionCall} {s : Console × Disk}
    (h : SaveAct.Wrote (sessionActs rs s)) : Console.WritesWork (sessionStarts rs s) := by
  induction rs generalizing s with
  | nil => exact absurd h SaveAct.not_wrote_nil
  | cons r rs ih =>
    obtain ⟨offset, data, hmem⟩ := h
    rcases List.mem_append.1 hmem with hlater | hfirst
    · obtain ⟨c, hc, hwrite⟩ := ih ⟨offset, data, hlater⟩
      exact ⟨c, List.mem_append_right _ hc, hwrite⟩
    · cases r with
      | persist => cases List.mem_singleton.1 hfirst
      | call f =>
        obtain ⟨c, hc, hwrite⟩ := Console.writesWork_of_wrote ⟨offset, data, hfirst⟩
        exact ⟨c, List.mem_append_left _ hc, hwrite⟩

end NesConsole
