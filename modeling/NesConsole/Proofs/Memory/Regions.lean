import NesConsole.Proofs.Cartridge.TableWiring
import NesConsole.Proofs.Safety.HostRun
import NesConsole.Proofs.Saves.Reload

/-! The bus of the processor, region by region. Whatever was done to the console before, an access
is refused in the test window and nowhere else, and a write that is not refused puts its byte into
one cell of the RAM of the console, into one of the cartridge, or into neither. -/
namespace NesConsole

/-! ### The cells of a cartridge -/

def WorkRam.cell? (i : Fin 0x2000) : WorkRam → Option UInt8
  | .absent => none
  | .volatile ram => some (ram.cells.get i)
  | .battery b => some (b.ram.cells.get i)

theorem Ram.cells_write {size : Nat} (r : Ram size) (offset : Nat) (data : UInt8) (i : Fin size) :
    (r.write offset data).cells.get i = if offset % size = i.val then data else r.cells.get i :=
  Vector.getElem_set (r.index offset).isLt i.isLt

/-- Offsets that differ by whole sizes have one cell. -/
theorem Ram.write_congr {size : Nat} (r : Ram size) {offset offset' : Nat}
    (h : offset % size = offset' % size) (data : UInt8) :
    r.write offset data = r.write offset' data := by
  simp only [write, index, h]

namespace Cartridge

/-- A cartridge as loading makes it: whole memories, and work RAM with the first two mappers. -/
structure Built (c : Cartridge) : Prop where
  whole : c.board.Whole
  work : c.work = .absent ↔ 1 < c.header.mapper

variable {c : Cartridge}

theorem Built.isSome_cell? (h : c.Built) (i : Fin 0x2000) :
    (c.work.cell? i).isSome = true ↔ c.header.mapper ≤ 1 := by
  rw [← Nat.not_lt, ← h.work]
  cases c.work <;> simp [WorkRam.cell?]

theorem workRamOf_eq_absent_iff (header : Header) (board : Board) (path : Option String)
    (d : Disk) : (workRamOf header board path d).1 = .absent ↔ board.workRamSize = 0 := by
  unfold workRamOf
  by_cases hsize : board.workRamSize = 0
  · rw [if_pos hsize]
    exact iff_of_true rfl hsize
  · rw [if_neg hsize]
    refine iff_of_false ?_ hsize
    split <;> rintro ⟨⟩

theorem built_ofImage {image : Array UInt8} {path : Option String} {d : Disk}
    {events : List CartridgeEvent} (h : ofImage image path d = .ok (c, events)) : c.Built := by
  refine ⟨whole_ofImage h, ?_⟩
  obtain ⟨hwell, hc⟩ := Image.wellFormed_of_ofImage h
  obtain rfl := congrArg Prod.fst hc
  have hle : (Image.header image).mapper ≤ 2 := hwell.board
  refine (workRamOf_eq_absent_iff ..).trans ?_
  change (Image.board image).workRamSize = 0 ↔ 1 < (Image.header image).mapper
  rw [Image.workRamSize_board]
  split <;> omega

theorem Built.write (h : c.Built) (address : UInt16) (data : UInt8) :
    (c.write address data).Built := by
  refine ⟨whole_write h.whole address data, ?_⟩
  rw [c.header_write, ← h.work]
  unfold Cartridge.write
  split
  · exact Iff.rfl
  · split
    · cases hwork : c.work <;> simp [hwork]
    · exact Iff.rfl

theorem Built.writePattern (h : c.Built) (address : UInt16) (data : UInt8) :
    ∃ c', c.writePattern? address data = some c' ∧ c'.Built ∧ c'.work = c.work := by
  obtain ⟨b, -, hwhole, hwrite⟩ := exists_writePattern h.whole address data
  exact ⟨_, hwrite, ⟨hwhole, h.work⟩, rfl⟩

theorem Built.persist (h : c.Built) {c' : Cartridge} {d d' : Disk}
    (hpersist : c.persist d = .ok c' d') : c'.Built := by
  refine ⟨board_persist hpersist ▸ h.whole, ?_⟩
  have hwork := h.work
  obtain ⟨header, board, work, path⟩ := c
  cases work with
  | absent | volatile =>
    cases hpersist
    exact hwork
  | battery b =>
    obtain ⟨b', d₁, -, hrest⟩ := of_bind_ok hpersist
    cases hrest
    exact ⟨nofun, fun hmapper => absurd (hwork.2 hmapper) nofun⟩

/-- A write puts its byte into the cell of the work RAM at its address, if there is one. -/
theorem cell?_write (c : Cartridge) (address : UInt16) (data : UInt8) (i : Fin 0x2000) :
    (c.write address data).work.cell? i =
      if address.toNat = 0x6000 + i.val then (c.work.cell? i).map fun _ => data
      else c.work.cell? i := by
  have hi := i.isLt
  unfold Cartridge.write
  by_cases hprogram : 0x8000 ≤ address
  · have hle : 0x8000 ≤ address.toNat := UInt16.le_iff_toNat_le.1 hprogram
    rw [if_pos hprogram, if_neg (by omega)]
  · by_cases hwork : 0x6000 ≤ address
    · have hlow : 0x6000 ≤ address.toNat := UInt16.le_iff_toNat_le.1 hwork
      have hhigh : address.toNat < 0x8000 := UInt16.lt_iff_toNat_lt.1 (UInt16.not_le.1 hprogram)
      have hoffset : (address - 0x6000).toNat = address.toNat - 0x6000 :=
        UInt16.toNat_sub_of_le _ _ hwork
      have hcell : (address - 0x6000).toNat % 0x2000 = i.val ↔
          address.toNat = 0x6000 + i.val := by omega
      rw [if_neg hprogram, if_pos hwork]
      cases hram : c.work with
      | absent => simp [WorkRam.cell?, hram]
      | volatile ram | battery b =>
        simp only [WorkRam.cell?, BatteryRam.write, Ram.cells_write, hcell, Option.map_some]
        split <;> rfl
    · have hlt : address.toNat < 0x6000 := UInt16.lt_iff_toNat_lt.1 (UInt16.not_le.1 hwork)
      rw [if_neg hprogram, if_neg hwork, if_neg (by omega)]

end Cartridge

/-! ### The windows -/

theorem mainMap_owner?_eq (address : UInt16) : mainMap.owner? address =
    if address < 0x0800 then some .ram
    else if address < 0x1000 then some (.ramAgain 0x0800)
    else if address < 0x1800 then some (.ramAgain 0x1000)
    else if address < 0x2000 then some (.ramAgain 0x1800)
    else if address < 0x4000 then some .picture
    else if address < 0x4018 then some .peripherals
    else if address < 0x4020 then none else some .cartridge := by
  have hlt := address.toNat_lt
  simp only [mainMap, AddressMap.owner?_cons, AddressMap.owner?_nil, UInt16.le_iff_toNat_le,
    UInt16.lt_iff_toNat_lt]
  simp only [UInt16.reduceToNat]
  grind

/-- The windows above the RAM of the console. -/
theorem mainMap_owner?_high {address : UInt16} (h : 0x2000 ≤ address) : mainMap.owner? address =
    if address < 0x4000 then some .picture
    else if address < 0x4018 then some .peripherals
    else if address < 0x4020 then none else some .cartridge := by
  have hle {bound : UInt16} (hbound : bound ≤ 0x2000) : ¬address < bound :=
    UInt16.not_lt.2 (UInt16.le_trans hbound h)
  rw [mainMap_owner?_eq, if_neg (hle (by decide)), if_neg (hle (by decide)),
    if_neg (hle (by decide)), if_neg (hle (by decide))]

def InTestWindow (address : UInt16) : Prop := 0x4018 ≤ address ∧ address ≤ 0x401F

instance (address : UInt16) : Decidable (InTestWindow address) :=
  inferInstanceAs (Decidable (_ ∧ _))

theorem owner?_eq_none_iff (address : UInt16) :
    mainMap.owner? address = none ↔ InTestWindow address := by
  rw [MainBus.owner?_eq_none, InTestWindow, UInt16.le_iff_toNat_le, UInt16.le_iff_toNat_le]
  exact and_congr_right fun _ => Nat.lt_succ_iff

/-- No write of the picture unit is refused, and none reaches the work RAM. -/
theorem VideoBus.built_write {v : VideoBus} (h : v.cartridge.Built) (address : UInt16)
    (data : UInt8) : ∃ v', v.write address data = .ok () v' ∧ v'.cartridge.Built ∧
      v'.cartridge.work = v.cartridge.work := by
  have hlt : (address % 0x4000).toNat < 0x4000 := by
    rw [UInt16.toNat_mod]
    exact Nat.mod_lt _ (by decide)
  obtain ⟨device, hdevice⟩ := videoMap_owner _ hlt
  unfold VideoBus.write
  dsimp only
  rw [hdevice]
  cases device with
  | patterns =>
    obtain ⟨c', hwrite, hbuilt, hwork⟩ := h.writePattern (address % 0x4000) data
    dsimp only
    rw [hwrite]
    exact ⟨_, rfl, hbuilt, hwork⟩
  | nameTables | nameTablesAgain | palette => exact ⟨_, rfl, h, rfl⟩

namespace MainBus
variable {b : MainBus} {address : UInt16}

/-! ### Consoles that can be reached -/

/-- What can become of the bus of a console: the acts of the processor and of the clock, and what
a host may do to the parts it has its hands on. -/
inductive Reachable : MainBus → Prop
  | wire {image : Array UInt8} {path : Option String} {d : Disk} {c : Cartridge}
      {events : List CartridgeEvent} (h : Cartridge.ofImage image path d = .ok (c, events))
      (journal : Journal) : Reachable (wire c journal)
  | act {b : MainBus} (h : Reachable b) (act : BusAct) : Reachable (act.run b)
  | takeTransfer {b : MainBus} (h : Reachable b) : Reachable (stateAfter takeTransfer b)
  | peripherals {b : MainBus} (h : Reachable b) (p : Peripherals) :
      Reachable { b with peripherals := p }
  | picture {b : MainBus} (h : Reachable b) (p : Ppu) : Reachable { b with picture := p }
  | cartridgeWrite {b : MainBus} (h : Reachable b) (address : UInt16) (data : UInt8) :
      Reachable { b with video := { b.video with
        cartridge := b.video.cartridge.write address data } }
  | patternWrite {b : MainBus} (h : Reachable b) {address : UInt16} {data : UInt8} {c : Cartridge}
      (hc : b.video.cartridge.writePattern? address data = some c) :
      Reachable { b with video := { b.video with cartridge := c } }
  | persist {b : MainBus} (h : Reachable b) {d d' : Disk} {c : Cartridge}
      (hc : b.video.cartridge.persist d = .ok c d') :
      Reachable { b with video := { b.video with cartridge := c } }
  | exchange {b : MainBus} (h : Reachable b) {image : Array UInt8} {path : Option String}
      {d : Disk} {c : Cartridge} {events : List CartridgeEvent}
      (hc : Cartridge.ofImage image path d = .ok (c, events)) :
      Reachable { b with video := { b.video with cartridge := c } }
  | note {b : MainBus} (h : Reachable b) (events : List Event) : Reachable (b.note events)

/-! ### What leaves the RAM -/

structure Holds (ram : Ram 0x800) (c : Cartridge) (b : MainBus) : Prop where
  ram : b.ram = ram
  cartridge : b.video.cartridge = c

section
variable {ram : Ram 0x800} {c : Cartridge}

theorem holds_read (hc : c.board.Whole) (address : UInt16) :
    Keeps (Holds ram c) (MainBus.read address) := by
  intro b h
  have hwhole : b.video.cartridge.board.Whole := h.cartridge ▸ hc
  unfold MainBus.read
  cases mainMap.owner? address with
  | none => exact h
  | some device =>
    cases device with
    | ram | ramAgain | peripherals => exact ⟨h.ram, h.cartridge⟩
    | picture =>
      obtain ⟨byte, p', hread⟩ := Ppu.exists_readRegister (p := b.picture) hwhole address
      simp only [onPicture, hread]
      exact ⟨h.ram, h.cartridge⟩
    | cartridge =>
      obtain ⟨byte, hbyte⟩ := Cartridge.exists_read hwhole address
      simp only [hbyte]
      exact h

theorem holds_transferObjects (hc : c.board.Whole) (page : UInt8) :
    Keeps (Holds ram c) (transferObjects page) :=
  leads_transfer (holds_read hc) (fun _ _ h => ⟨h.ram, h.cartridge⟩)
    (fun _ _ h => ⟨h.ram, h.cartridge⟩) page

end

/-! ### Writes -/

/-- The low window shows the RAM of the console over and over. -/
theorem write_low (b : MainBus) (h : address < 0x2000) (data : UInt8) :
    MainBus.write address data b = .ok () { b with ram := b.ram.write address.toNat data } := by
  have hagain {base : UInt16} (hbase : base ≤ address) (hwhole : base.toNat % 0x800 = 0) :
      b.ram.write (rebased base address).toNat data = b.ram.write address.toNat data := by
    have hrebased : (rebased base address).toNat = address.toNat - base.toNat :=
      UInt16.toNat_sub_of_le _ _ hbase
    have hle : base.toNat ≤ address.toNat := UInt16.le_iff_toNat_le.1 hbase
    exact b.ram.write_congr (by omega) data
  unfold MainBus.write
  rw [mainMap_owner?_eq]
  by_cases h₁ : address < 0x0800
  · rw [if_pos h₁]
  rw [if_neg h₁]
  by_cases h₂ : address < 0x1000
  · rw [if_pos h₂]
    dsimp only
    rw [hagain (UInt16.not_lt.1 h₁) rfl]
  rw [if_neg h₂]
  by_cases h₃ : address < 0x1800
  · rw [if_pos h₃]
    dsimp only
    rw [hagain (UInt16.not_lt.1 h₂) rfl]
  rw [if_neg h₃, if_pos h]
  dsimp only
  rw [hagain (UInt16.not_lt.1 h₃) rfl]

structure Written (address : UInt16) (data : UInt8) (b b' : MainBus) : Prop where
  built : b'.video.cartridge.Built
  ram (i : Fin 0x800) : b'.ram.cells.get i =
    if address < 0x2000 ∧ address.toNat % 0x800 = i.val then data else b.ram.cells.get i
  work (i : Fin 0x2000) : b'.video.cartridge.work.cell? i =
    if address.toNat = 0x6000 + i.val then (b.video.cartridge.work.cell? i).map fun _ => data
    else b.video.cartridge.work.cell? i

/-- A write elsewhere leaves both RAMs. -/
theorem Written.of_elsewhere {b' : MainBus} {data : UInt8} (hlow : 0x2000 ≤ address)
    (hhigh : address < 0x6000) (hbuilt : b'.video.cartridge.Built) (hram : b'.ram = b.ram)
    (hwork : b'.video.cartridge.work = b.video.cartridge.work) : Written address data b b' := by
  have hlt : address.toNat < 0x6000 := UInt16.lt_iff_toNat_lt.1 hhigh
  refine ⟨hbuilt, fun i => ?_, fun i => ?_⟩
  · rw [if_neg fun h => UInt16.not_lt.2 hlow h.1, hram]
  · rw [if_neg (by omega), hwork]

/-- A write to a register of the picture unit may reach the patterns, and no further. -/
theorem exists_writeRegister (hb : b.video.cartridge.Built) (address : UInt16) (data : UInt8) :
    ∃ b', onPicture (Ppu.writeRegister address data) b = .ok () b' ∧ b'.video.cartridge.Built ∧
      b'.ram = b.ram ∧ b'.video.cartridge.work = b.video.cartridge.work := by
  by_cases hregister : address.toNat % 8 = 7
  · obtain ⟨v', hwrite, hbuilt, hwork⟩ := VideoBus.built_write hb b.picture.v.busAddress data
    obtain ⟨p', hrun⟩ := Ppu.writeRegister_data hregister hwrite
    simp only [onPicture, hrun]
    exact ⟨_, rfl, hbuilt, rfl, hwork⟩
  · obtain ⟨p', hrun⟩ := Ppu.writeRegister_other b.picture b.video hregister data
    simp only [onPicture, hrun]
    exact ⟨_, rfl, hb, rfl, rfl⟩

theorem exists_write (hb : b.video.cartridge.Built) (h : ¬InTestWindow address) (data : UInt8) :
    ∃ b', MainBus.write address data b = .ok () b' ∧ Written address data b b' := by
  by_cases hlow : address < 0x2000
  · have hlt : address.toNat < 0x2000 := UInt16.lt_iff_toNat_lt.1 hlow
    refine ⟨_, write_low b hlow data, hb, fun i => ?_, fun i => ?_⟩
    · simp only [Ram.cells_write, hlow, true_and]
    · rw [if_neg (by omega)]
  have hbase : 0x2000 ≤ address := UInt16.not_lt.1 hlow
  unfold MainBus.write
  rw [mainMap_owner?_high hbase]
  by_cases hpicture : address < 0x4000
  · obtain ⟨b', hrun, hbuilt, hram, hwork⟩ := exists_writeRegister hb address data
    rw [if_pos hpicture]
    dsimp only
    rw [hrun]
    exact ⟨b', rfl, .of_elsewhere hbase (UInt16.lt_trans hpicture (by decide)) hbuilt hram hwork⟩
  rw [if_neg hpicture]
  by_cases hpads : address < 0x4018
  · rw [if_pos hpads]
    exact ⟨_, rfl, .of_elsewhere hbase (UInt16.lt_trans hpads (by decide)) hb rfl rfl⟩
  have htest : ¬address < 0x4020 := fun hlt =>
    h ⟨UInt16.not_lt.1 hpads, UInt16.le_iff_toNat_le.2
      (Nat.lt_succ_iff.1 (UInt16.lt_iff_toNat_lt.1 hlt))⟩
  rw [if_neg hpads, if_neg htest]
  refine ⟨_, rfl, hb.write address data, fun i => ?_, fun i => ?_⟩
  · rw [if_neg fun h => hlow h.1]
    rfl
  · exact b.video.cartridge.cell?_write address data i

theorem write_test (b : MainBus) (h : InTestWindow address) (data : UInt8) :
    MainBus.write address data b = .error (.unmapped address) b := by
  rw [MainBus.write, (owner?_eq_none_iff address).2 h]

/-- A program that is refused under `p`, with nothing changed, and succeeds otherwise. -/
theorem refused_iff {ε σ α : Type} {x : EStateM ε σ α} {s : σ} {e₀ : ε} {p : Prop}
    (herror : p → x s = .error e₀ s) (hok : ¬p → ∃ a s', x s = .ok a s') (e : ε) (s' : σ) :
    x s = .error e s' ↔ p ∧ e = e₀ ∧ s' = s := by
  by_cases hp : p
  · rw [herror hp]
    constructor
    · rintro ⟨⟩
      exact ⟨hp, rfl, rfl⟩
    · rintro ⟨-, rfl, rfl⟩
      rfl
  · obtain ⟨a, s₁, hx⟩ := hok hp
    rw [hx]
    exact iff_of_false nofun fun h => hp h.1

/-! ### Any history -/

theorem built_run (h : b.video.cartridge.Built) (act : BusAct) :
    (act.run b).video.cartridge.Built := by
  have hkept {b' : MainBus} (hb' : b'.Holds b.ram b.video.cartridge) : b'.video.cartridge.Built :=
    hb'.cartridge ▸ h
  cases act with
  | read address => exact hkept ((holds_read h.whole address).stateAfter ⟨rfl, rfl⟩)
  | transfer page => exact hkept ((holds_transferObjects h.whole page).stateAfter ⟨rfl, rfl⟩)
  | reset => exact h
  | dot =>
    obtain ⟨p', hstep⟩ := exists_stepDot h.whole
    rw [BusAct.run, stateAfter, hstep]
    exact h
  | write address data =>
    rw [BusAct.run, stateAfter]
    by_cases htest : InTestWindow address
    · rw [write_test b htest]
      exact h
    · obtain ⟨b', hwrite, hwritten⟩ := exists_write h htest data
      rw [hwrite]
      exact hwritten.built

theorem Reachable.built (h : b.Reachable) : b.video.cartridge.Built := by
  induction h with
  | wire h => exact Cartridge.built_ofImage h
  | act h act ih => exact built_run ih act
  | takeTransfer h ih | peripherals h p ih | picture h p ih | note h events ih => exact ih
  | cartridgeWrite h address data ih => exact ih.write address data
  | patternWrite h hc ih =>
    obtain ⟨c', hwrite, hbuilt, -⟩ := ih.writePattern _ _
    exact Option.some.inj (hwrite.symm.trans hc) ▸ hbuilt
  | persist h hc ih => exact ih.persist hc
  | exchange h hc => exact Cartridge.built_ofImage hc

theorem Reachable.afterActs (h : b.Reachable) (past : List BusAct) :
    (b.afterActs past).Reachable := by
  induction past with
  | nil => exact h
  | cons act past ih => exact ih.act act

/-- An access is refused exactly in the test window, and then changes nothing. A write that is not
refused puts its byte into the one cell of either RAM that lies at the address, if any does; a
cartridge of the first two mappers has such cells. Reads, dots, transfers and a reset leave both
RAMs, and the picture unit is never refused. -/
theorem accesses_by_region (h : b.Reachable) (address : UInt16) (data : UInt8) :
    let work (b : MainBus) (i : Fin 0x2000) := b.video.cartridge.work.cell? i
    (∀ e b', MainBus.read address b = .error e b' ↔
      InTestWindow address ∧ e = .unmapped address ∧ b' = b) ∧
    (∀ e b', MainBus.write address data b = .error e b' ↔
      InTestWindow address ∧ e = .unmapped address ∧ b' = b) ∧
    (∀ b', MainBus.write address data b = .ok () b' →
      (∀ i : Fin 0x800, b'.ram.cells.get i =
        if address < 0x2000 ∧ address.toNat % 0x800 = i.val then data else b.ram.cells.get i) ∧
      ∀ i, work b' i =
        if address.toNat = 0x6000 + i.val then (work b i).map fun _ => data else work b i) ∧
    (∀ i, (work b i).isSome = true ↔ b.video.cartridge.header.mapper ≤ 1) ∧
    (∀ byte b', MainBus.read address b = .ok byte b' → b'.Holds b.ram b.video.cartridge) ∧
    (∃ tick b', stepDot b = .ok tick b' ∧ b'.Holds b.ram b.video.cartridge) ∧
    (∀ page, (stateAfter (transferObjects page) b).Holds b.ram b.video.cartridge) ∧
    b.reset.Holds b.ram b.video.cartridge ∧
    (0x2000 ≤ address → address ≤ 0x3FFF →
      (∃ byte b', MainBus.read address b = .ok byte b') ∧
        ∃ b', MainBus.write address data b = .ok () b') := by
  intro work
  have hbuilt := h.built
  have hread := holds_read hbuilt.whole address b ⟨Eq.refl b.ram, rfl⟩
  have hread_ok (htest : ¬InTestWindow address) :
      ∃ byte b', MainBus.read address b = .ok byte b' := by
    obtain ⟨byte, b', hok, -⟩ := exists_read hbuilt.whole (mt (owner?_eq_none_iff address).1 htest)
    exact ⟨byte, b', hok⟩
  have hwrite_ok (htest : ¬InTestWindow address) :
      ∃ a b', MainBus.write address data b = .ok a b' := by
    obtain ⟨b', hok, -⟩ := exists_write hbuilt htest data
    exact ⟨(), b', hok⟩
  refine ⟨refused_iff (fun htest => read_unowned ((owner?_eq_none_iff address).2 htest)) hread_ok,
    refused_iff (fun htest => write_test b htest data) hwrite_ok, fun b' hok => ?_,
    hbuilt.isSome_cell?, fun byte b' hok => ?_, ?_,
    fun page => (holds_transferObjects hbuilt.whole page).stateAfter ⟨rfl, rfl⟩, ⟨rfl, rfl⟩,
    fun hlow hhigh => ?_⟩
  · by_cases htest : InTestWindow address
    · rw [write_test b htest] at hok
      cases hok
    · obtain ⟨b₁, hwrite, hwritten⟩ := exists_write hbuilt htest data
      rw [hwrite] at hok
      cases hok
      exact ⟨hwritten.ram, hwritten.work⟩
  · rwa [hok] at hread
  · obtain ⟨p', hstep⟩ := exists_stepDot hbuilt.whole
    exact ⟨_, _, hstep, rfl, rfl⟩
  · have htest : ¬InTestWindow address := fun htest =>
      absurd (UInt16.le_trans htest.1 hhigh) (by decide)
    obtain ⟨_, b', hwrite⟩ := hwrite_ok htest
    exact ⟨hread_ok htest, b', hwrite⟩

def plainBus : MainBus :=
  (wire (plainCartridge (Array.replicate 0x4000 0xEA)) {}).afterActs
    [.write 0x2007 1, .dot, .write 0x0805 3]

theorem accesses_by_region_plain : plainBus.Reachable ∧
    (∃ b', MainBus.write 0x6005 9 plainBus = .ok () b' ∧ b'.ram.cells.get 5 = 3 ∧
      b'.video.cartridge.work.cell? 5 = some 9 ∧ b'.video.cartridge.work.cell? 6 = some 0) ∧
    MainBus.read 0x401F plainBus = .error (.unmapped 0x401F) plainBus := by
  have hsize : (Array.replicate 0x4000 (0xEA : UInt8)).size = 0x4000 := Array.size_replicate
  have hload := ofImage_plain hsize {}
  have hreach : plainBus.Reachable := (Reachable.wire hload {}).afterActs _
  obtain ⟨-, hrefused, hcells, -, -, -, -, -, -⟩ := accesses_by_region hreach 0x6005 9
  obtain ⟨htest, -, -, -, -, -, -, -, -⟩ := accesses_by_region hreach 0x401F 0
  refine ⟨hreach, ?_, (htest _ _).2 ⟨by decide, rfl, rfl⟩⟩
  cases hwrite : MainBus.write 0x6005 9 plainBus with
  | error e b' => exact absurd ((hrefused e b').1 hwrite).1 (by decide)
  | ok _ b' =>
    obtain ⟨hram, hwork⟩ := hcells b' hwrite
    exact ⟨b', rfl, (hram 5).trans (by decide +kernel), (hwork 5).trans (by decide +kernel),
      (hwork 6).trans (by decide +kernel)⟩

end MainBus
end NesConsole
