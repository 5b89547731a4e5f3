import NesConsole.Proofs.Cartridge.Acceptance
import NesConsole.Proofs.Safety.Whole

/-! The wiring of the name tables through any history of the console's bus. The mode that the
tables keep is the cartridge's own choice after every act, and a cell shows the byte written to it
last, whatever the mode and the mirror were then. -/
namespace NesConsole

/-- One of the four tables, and a place in it. -/
abbrev TableCell := Fin 4 × Fin 0x400

namespace TableCell

theorem quarter_lt (address : UInt16) : address.toNat / 0x400 % 4 < 4 := Nat.mod_lt _ (by decide)

def quarter (address : UInt16) : Fin 4 := ⟨address.toNat / 0x400 % 4, quarter_lt address⟩

def offset (address : UInt16) : Fin 0x400 := ⟨address.toNat % 0x400, Nat.mod_lt _ (by decide)⟩

theorem column_lt (quarter : Fin 4) : quarter.val % 2 < 4 := by omega

theorem row_lt (quarter : Fin 4) : quarter.val / 2 < 4 := by omega

def column (quarter : Fin 4) : Fin 4 := ⟨quarter.val % 2, column_lt quarter⟩

def row (quarter : Fin 4) : Fin 4 := ⟨quarter.val / 2, row_lt quarter⟩

def place (cell : TableCell) : Fin 0x1000 := ⟨cell.1.val * 0x400 + cell.2.val, by omega⟩

theorem place_inj {cell cell' : TableCell} : place cell = place cell' ↔ cell = cell' := by
  obtain ⟨⟨table, htable⟩, ⟨offset, hoffset⟩⟩ := cell
  obtain ⟨⟨table', htable'⟩, ⟨offset', hoffset'⟩⟩ := cell'
  simp only [place, Fin.mk.injEq, Prod.mk.injEq]
  omega

end TableCell
open TableCell

/-- The table that a cartridge prescribes for a quarter: four screens are wired for good, then
comes the choice of an MMC1, then the wiring of the board. -/
def Cartridge.prescribed (c : Cartridge) (quarter : Fin 4) : Fin 4 :=
  if c.header.mirroring = .fourScreen then quarter
  else match c.board.mapper with
    | .mmc1 m => match m.control.toNat % 4 with
      | 0 => 0
      | 1 => 1
      | 2 => column quarter
      | _ => row quarter
    | _ => if c.header.mirroring = .vertical then column quarter else row quarter

def Cartridge.cell (c : Cartridge) (address : UInt16) : TableCell :=
  (c.prescribed (quarter address), offset address)

/-- A header whose wiring a solder pad can make. -/
def Header.Soldered (h : Header) : Prop :=
  h.mirroring = .fourScreen ∨ h.mirroring = .vertical ∨ h.mirroring = .horizontal

theorem Image.soldered_header (b : Array UInt8) : (header b).Soldered := by
  unfold Header.Soldered header
  dsimp only
  split
  · exact .inl rfl
  · split
    · exact .inr (.inl rfl)
    · exact .inr (.inr rfl)

theorem Cartridge.header_write (c : Cartridge) (address : UInt16) (data : UInt8) :
    (c.write address data).header = c.header := by
  unfold Cartridge.write
  split
  · rfl
  · split
    · split <;> rfl
    · rfl

theorem ScrollAddress.busAddress_lt (s : ScrollAddress) : s.busAddress < 0x4000 := by
  rw [busAddress, UInt16.lt_iff_toNat_lt, UInt16.toNat_ofNat']
  exact Nat.lt_of_le_of_lt (Nat.mod_le _ _) (Nat.mod_lt _ (by decide))

theorem Cartridge.table_mirroring {c : Cartridge} (h : c.header.Soldered) (quarter : Fin 4) :
    c.mirroring.table quarter = c.prescribed quarter := by
  unfold Cartridge.mirroring Cartridge.prescribed Board.mirroring?
  split
  case isTrue => rfl
  case isFalse hfour =>
    cases c.board.mapper with
    | mmc1 m =>
      dsimp only [Option.getD, Mmc1.mirroring]
      generalize m.control.toNat % 4 = choice
      match choice with
      | 0 | 1 | 2 | n + 3 => rfl
    | nrom | uxrom =>
      obtain hfour' | hpad | hpad := h
      · exact absurd hfour' hfour
      all_goals
        rw [hpad]
        rfl

/-! ### The memory of the tables -/

namespace NameTables
variable (t : NameTables)

def byte (cell : TableCell) : UInt8 := t.cells[place cell]

def cell (address : UInt16) : TableCell := (t.mirroring.table (quarter address), offset address)

theorem byte_write (address : UInt16) (data : UInt8) (cell : TableCell) :
    (t.write address data).byte cell = if t.cell address = cell then data else t.byte cell := by
  have hplace : NameTables.index t.mirroring address = place (t.cell address) := rfl
  simp only [byte, write, hplace, Fin.getElem_fin, Vector.getElem_set, Fin.val_inj, place_inj]

@[simp] theorem byte_blank (m : Mirroring) (cell : TableCell) : (blank m).byte cell = 0 := by
  simp [byte, blank]

/-- The two windows of the tables differ by whole tables. -/
theorem cell_rebased {address : UInt16} (h : 0x3000 ≤ address) :
    t.cell (rebased 0x1000 address) = t.cell address := by
  have hbase : (0x1000 : UInt16) ≤ address := UInt16.le_trans (by decide) h
  have hrebased : (rebased 0x1000 address).toNat = address.toNat - 0x1000 :=
    UInt16.toNat_sub_of_le _ _ hbase
  have hle : 0x3000 ≤ address.toNat := UInt16.le_iff_toNat_le.1 h
  have hquarter : quarter (rebased 0x1000 address) = quarter address := by
    refine Fin.ext (show (rebased 0x1000 address).toNat / 0x400 % 4 = _ from ?_)
    rw [hrebased]
    change _ = address.toNat / 0x400 % 4
    omega
  have hoffset : offset (rebased 0x1000 address) = offset address := by
    refine Fin.ext (show (rebased 0x1000 address).toNat % 0x400 = _ from ?_)
    rw [hrebased]
    change _ = address.toNat % 0x400
    omega
  rw [cell, cell, hquarter, hoffset]

end NameTables

/-! ### The windows of the two maps -/

namespace AddressMap
variable {τ : Type} (limit : UInt16)

theorem owner?_nil (address : UInt16) : (⟨limit, []⟩ : AddressMap τ).owner? address = none := rfl

theorem owner?_cons (w : Window τ) (ws : List (Window τ)) (address : UInt16) :
    (⟨limit, w :: ws⟩ : AddressMap τ).owner? address =
      if w.first ≤ address ∧ address ≤ w.last then some w.owner
      else (⟨limit, ws⟩ : AddressMap τ).owner? address := by
  unfold owner?
  rw [List.find?_cons]
  by_cases h : w.first ≤ address ∧ address ≤ w.last
  · have hholds : w.holds address = true := by simp [Window.holds, h]
    rw [if_pos h, hholds]
    rfl
  · have hholds : w.holds address = false := by simpa [Window.holds] using h
    rw [if_neg h, hholds]

end AddressMap

theorem videoMap_owner?_eq (address : UInt16) : videoMap.owner? address =
    if address < 0x2000 then some .patterns
    else if address < 0x3000 then some .nameTables
    else if address < 0x3F00 then some .nameTablesAgain
    else if address < 0x4000 then some .palette else none := by
  simp only [videoMap, AddressMap.owner?_cons, AddressMap.owner?_nil, UInt16.le_iff_toNat_le,
    UInt16.lt_iff_toNat_lt]
  simp only [UInt16.reduceToNat]
  grind

theorem mainMap_picture (address : UInt16) : mainMap.owner? address = some .picture ↔
    0x2000 ≤ address ∧ address < 0x4000 := by
  simp only [mainMap, AddressMap.owner?_cons, AddressMap.owner?_nil, UInt16.le_iff_toNat_le,
    UInt16.lt_iff_toNat_lt]
  simp only [UInt16.reduceToNat]
  grind

/-! ### The acts on a bus -/

inductive BusAct where
  | read (address : UInt16)
  | write (address : UInt16) (data : UInt8)
  | dot
  | transfer (page : UInt8)
  | reset

namespace BusAct

def run : BusAct → MainBus → MainBus
  | .read address => stateAfter (MainBus.read address)
  | .write address data => stateAfter (MainBus.write address data)
  | .dot => stateAfter MainBus.stepDot
  | .transfer page => stateAfter (MainBus.transferObjects page)
  | .reset => MainBus.reset

/-- The byte that an act puts into a table: one written to the data register, or a mirror of it,
while the address of the picture unit lies in the tables. The cell is the one that the cartridge
prescribes then. -/
def tableByte? (b : MainBus) : BusAct → Option (TableCell × UInt8)
  | .write address data =>
    let place := b.picture.v.busAddress
    if (0x2000 ≤ address ∧ address < 0x4000 ∧ address.toNat % 8 = 7) ∧
        0x2000 ≤ place ∧ place < 0x3F00 then some (b.video.cartridge.cell place, data)
    else none
  | .read _ | .dot | .transfer _ | .reset => none

end BusAct

def MainBus.afterActs (b : MainBus) : List BusAct → MainBus
  | [] => b
  | act :: past => act.run (b.afterActs past)

def TableCell.shows (cell : TableCell) (old : UInt8) : Option (TableCell × UInt8) → UInt8
  | none => old
  | some (cell', byte) => if cell' = cell then byte else old

def MainBus.lastByte (b : MainBus) (cell : TableCell) : List BusAct → UInt8
  | [] => 0
  | act :: past => cell.shows (b.lastByte cell past) (act.tableByte? (b.afterActs past))

/-! ### What an act does to the tables -/

theorem Board.mapper_writePattern {b b' : Board} {address : UInt16} {data : UInt8}
    (h : b.writePattern? address data = some b') : b'.mapper = b.mapper := by
  obtain ⟨m, -, rfl⟩ := Option.map_eq_some_iff.1 h
  rfl

namespace VideoBus
variable {v : VideoBus} {address : UInt16}

theorem mod_lines (h : address < 0x4000) : address % 0x4000 = address := by
  rw [← UInt16.toNat_inj, UInt16.toNat_mod]
  exact Nat.mod_eq_of_lt (UInt16.lt_iff_toNat_lt.1 h)

theorem read_table (hlow : 0x2000 ≤ address) (hhigh : address < 0x3F00) :
    v.read address = .ok (v.nameTables.byte (v.nameTables.cell address)) := by
  unfold VideoBus.read
  dsimp only
  rw [mod_lines (UInt16.lt_trans hhigh (by decide)), videoMap_owner?_eq,
    if_neg (UInt16.not_lt.2 hlow)]
  by_cases hagain : address < 0x3000
  · rw [if_pos hagain]
    rfl
  · rw [if_neg hagain, if_pos hhigh, ← v.nameTables.cell_rebased (UInt16.not_lt.1 hagain)]
    rfl

theorem write_table (hlow : 0x2000 ≤ address) (hhigh : address < 0x3F00) (data : UInt8) :
    ∃ t, v.write address data = .ok () { v with nameTables := t } ∧
      t.mirroring = v.nameTables.mirroring ∧
      ∀ cell, t.byte cell = cell.shows (v.nameTables.byte cell)
        (some (v.nameTables.cell address, data)) := by
  unfold VideoBus.write
  dsimp only
  rw [mod_lines (UInt16.lt_trans hhigh (by decide)), videoMap_owner?_eq,
    if_neg (UInt16.not_lt.2 hlow)]
  by_cases hagain : address < 0x3000
  · rw [if_pos hagain]
    exact ⟨_, rfl, rfl, v.nameTables.byte_write address data⟩
  · rw [if_neg hagain, if_pos hhigh, ← v.nameTables.cell_rebased (UInt16.not_lt.1 hagain)]
    exact ⟨_, rfl, rfl, v.nameTables.byte_write _ data⟩

/-- A write outside the tables leaves them, and what the cartridge prescribes. -/
theorem write_beside (hwhole : v.cartridge.board.Whole) (haddress : address < 0x4000)
    (houtside : ¬(0x2000 ≤ address ∧ address < 0x3F00)) (data : UInt8) :
    ∃ v', v.write address data = .ok () v' ∧ v'.cartridge.board.Whole ∧
      v'.nameTables = v.nameTables ∧ v'.cartridge.header = v.cartridge.header ∧
      v'.cartridge.board.mapper = v.cartridge.board.mapper := by
  unfold VideoBus.write
  dsimp only
  rw [mod_lines haddress, videoMap_owner?_eq]
  by_cases hlow : address < 0x2000
  · obtain ⟨b, hb, hwhole', hpattern⟩ := Cartridge.exists_writePattern hwhole address data
    rw [if_pos hlow]
    dsimp only
    rw [hpattern]
    exact ⟨_, rfl, hwhole', rfl, rfl, Board.mapper_writePattern hb⟩
  · have hpalette : ¬address < 0x3F00 := fun h => houtside ⟨UInt16.not_lt.1 hlow, h⟩
    have hmiddle : ¬address < 0x3000 := fun h => hpalette (UInt16.lt_trans h (by decide))
    rw [if_neg hlow, if_neg hmiddle, if_neg hpalette, if_pos haddress]
    exact ⟨_, rfl, hwhole, rfl, rfl, rfl⟩

end VideoBus

namespace MainBus
variable {header : Header} {bytes : TableCell → UInt8} {b : MainBus}

structure InStep (header : Header) (bytes : TableCell → UInt8) (b : MainBus) : Prop where
  whole : b.Whole
  header : b.video.cartridge.header = header
  mirroring : b.video.nameTables.mirroring = b.video.cartridge.mirroring
  bytes : ∀ cell, b.video.nameTables.byte cell = bytes cell

theorem InStep.of_video {b' : MainBus} (h : b.InStep header bytes)
    (hcartridge : b'.video.cartridge = b.video.cartridge)
    (htables : b'.video.nameTables = b.video.nameTables) : b'.InStep header bytes := by
  refine ⟨?_, hcartridge ▸ h.header, ?_, htables ▸ h.bytes⟩
  · rw [Whole, hcartridge]
    exact h.whole
  · rw [htables, hcartridge, h.mirroring]

theorem InStep.cell (h : b.InStep header bytes) (hsolder : header.Soldered) (address : UInt16) :
    b.video.nameTables.cell address = b.video.cartridge.cell address := by
  rw [NameTables.cell, h.mirroring,
    Cartridge.table_mirroring (h.header.symm ▸ hsolder), Cartridge.cell]

theorem inStep_read (address : UInt16) : Keeps (InStep header bytes) (MainBus.read address) := by
  intro b h
  have hvideo := keeps_video h.whole address b rfl
  cases hread : MainBus.read address b <;> rw [hread] at hvideo
  all_goals exact h.of_video (congrArg VideoBus.cartridge hvideo) (congrArg _ hvideo)

theorem inStep_transferObjects (page : UInt8) :
    Keeps (InStep header bytes) (transferObjects page) :=
  leads_transfer inStep_read (fun _ _ h => h.of_video rfl rfl) (fun _ _ h => h.of_video rfl rfl)
    page

/-- The cell is named before the write by what the cartridge prescribes, and a write to the tables
leaves the cartridge; a write to the patterns leaves its header and mapper. -/
theorem InStep.exists_putData (h : b.InStep header bytes) (hsolder : header.Soldered)
    (data : UInt8) : ∃ v', b.video.write b.picture.v.busAddress data = .ok () v' ∧ ∀ p,
      InStep header (fun cell => cell.shows (bytes cell)
        (if 0x2000 ≤ b.picture.v.busAddress ∧ b.picture.v.busAddress < 0x3F00 then
          some (b.video.cartridge.cell b.picture.v.busAddress, data) else none))
        { b with picture := p, video := v' } := by
  generalize hplace : b.picture.v.busAddress = place
  by_cases htable : 0x2000 ≤ place ∧ place < 0x3F00
  · obtain ⟨t, hwrite, hmirroring, hbytes⟩ := b.video.write_table htable.1 htable.2 data
    refine ⟨_, hwrite, fun p => ⟨h.whole, h.header, hmirroring.trans h.mirroring, fun cell => ?_⟩⟩
    rw [if_pos htable, ← h.bytes cell, ← h.cell hsolder]
    exact hbytes cell
  · have hlt : place < 0x4000 := hplace ▸ b.picture.v.busAddress_lt
    obtain ⟨v', hwrite, hwhole, htables, hheader, hmapper⟩ :=
      VideoBus.write_beside h.whole hlt htable data
    refine ⟨v', hwrite, fun p => ⟨hwhole, hheader.trans h.header, ?_, fun cell => ?_⟩⟩
    · have hsame : v'.cartridge.mirroring = b.video.cartridge.mirroring := by
        rw [Cartridge.mirroring, Cartridge.mirroring, Board.mirroring?, Board.mirroring?, hheader,
          hmapper]
      change v'.nameTables.mirroring = v'.cartridge.mirroring
      rw [htables, hsame, h.mirroring]
    · rw [if_neg htable]
      change v'.nameTables.byte cell = _
      rw [htables]
      exact h.bytes cell

theorem InStep.write_picture (h : b.InStep header bytes) (hsolder : header.Soldered)
    {address : UInt16} (hwindow : 0x2000 ≤ address ∧ address < 0x4000) (data : UInt8) :
    InStep header (fun cell => cell.shows (bytes cell) ((BusAct.write address data).tableByte? b))
      ((BusAct.write address data).run b) := by
  have howner := (mainMap_picture address).2 hwindow
  unfold BusAct.run BusAct.tableByte? stateAfter MainBus.write
  dsimp only
  rw [howner]
  by_cases hregister : address.toNat % 8 = 7
  · obtain ⟨v', hwrite, h'⟩ := h.exists_putData hsolder data
    obtain ⟨p', hrun⟩ := Ppu.writeRegister_data hregister hwrite
    simp only [onPicture, hrun, hwindow, hregister, true_and]
    exact h' p'
  · obtain ⟨p', hrun⟩ := Ppu.writeRegister_other b.picture b.video hregister data
    simp only [onPicture, hrun, hregister, and_false, false_and, if_false]
    exact h.of_video rfl rfl

/-- A write to the cartridge, after which the tables are wired anew. -/
theorem InStep.writeCartridge (h : b.InStep header bytes) (address : UInt16) (data : UInt8) :
    (b.writeCartridge address data).InStep header bytes where
  whole := Cartridge.whole_write h.whole address data
  header := (Cartridge.header_write _ _ _).trans h.header
  mirroring := rfl
  bytes := h.bytes

theorem InStep.run (h : b.InStep header bytes) (hsolder : header.Soldered) (act : BusAct) :
    InStep header (fun cell => cell.shows (bytes cell) (act.tableByte? b)) (act.run b) := by
  cases act with
  | read address => exact (inStep_read address).stateAfter h
  | transfer page => exact (inStep_transferObjects page).stateAfter h
  | reset => exact h.of_video rfl rfl
  | dot =>
    obtain ⟨p', hstep⟩ := exists_stepDot h.whole
    have hrun : BusAct.dot.run b = { b with picture := p' } := by
      rw [BusAct.run, stateAfter, hstep]
    rw [hrun]
    exact h.of_video rfl rfl
  | write address data =>
    by_cases hwindow : 0x2000 ≤ address ∧ address < 0x4000
    · exact h.write_picture hsolder hwindow data
    · -- No other window leads to the tables, and only that of the cartridge to their mode.
      have hnone : (BusAct.write address data).tableByte? b = none :=
        if_neg fun hc => hwindow ⟨hc.1.1, hc.1.2.1⟩
      have howner := mt (mainMap_picture address).1 hwindow
      rw [hnone]
      unfold BusAct.run stateAfter MainBus.write
      dsimp only
      cases hdevice : mainMap.owner? address with
      | none => exact h
      | some device =>
        cases device with
        | picture => exact absurd hdevice howner
        | ram | ramAgain | peripherals => exact h.of_video rfl rfl
        | cartridge => exact h.writeCartridge address data

/-- By induction on the past: the bytes that the invariant carries are those put last. -/
theorem inStep_afterActs (h : b.InStep header fun _ => 0) (hsolder : header.Soldered)
    (past : List BusAct) :
    (b.afterActs past).InStep header fun cell => b.lastByte cell past := by
  induction past with
  | nil => exact h
  | cons act past ih => exact ih.run hsolder act

end MainBus

/-- After any history of the bus each quarter shows the table that the cartridge prescribes at
that moment, and each address of the tables the byte put last into its cell, through whatever
quarter, mirror and mode, or 0. -/
theorem tables_follow_cartridge {image : Array UInt8} {path : Option String} {d : Disk}
    {c : Cartridge} {events : List CartridgeEvent}
    (h : Cartridge.ofImage image path d = .ok (c, events)) (journal : Journal)
    (past : List BusAct) :
    let start := MainBus.wire c journal
    let video := (start.afterActs past).video
    video.cartridge.header = Image.header image ∧
    video.nameTables.mirroring = video.cartridge.mirroring ∧
    (∀ quarter, video.nameTables.mirroring.table quarter = video.cartridge.prescribed quarter) ∧
    ∀ address, 0x2000 ≤ address → address < 0x3F00 →
      video.read address = .ok (start.lastByte (video.cartridge.cell address) past) := by
  intro start video
  have hheader : c.header = Image.header image :=
    congrArg (fun r => r.1.header) (Image.wellFormed_of_ofImage h).2
  have hsolder : c.header.Soldered := hheader ▸ Image.soldered_header image
  have hwire : start.InStep c.header fun _ => 0 :=
    ⟨Cartridge.whole_ofImage h, rfl, rfl, NameTables.byte_blank _⟩
  have hpast := MainBus.inStep_afterActs hwire hsolder past
  have htable (quarter : Fin 4) :
      video.cartridge.mirroring.table quarter = video.cartridge.prescribed quarter :=
    Cartridge.table_mirroring (hpast.header.symm ▸ hsolder) quarter
  refine ⟨hpast.header.trans hheader, hpast.mirroring, fun quarter => ?_,
    fun address hlow hhigh => ?_⟩
  · rw [hpast.mirroring, htable]
  · rw [VideoBus.read_table hlow hhigh, hpast.cell hsolder, hpast.bytes]

/-- An MMC1 board whose pads are soldered for horizontal mirroring. -/
def tabledHeader : Array UInt8 :=
  #[0x4E, 0x45, 0x53, 0x1A, 1, 0, 0x10, 0, 0, 0, 0, 0, 0, 0, 0, 0]

def tabledImage : Array UInt8 := ⟨tabledHeader.toList ++ List.replicate 0x4000 0⟩

/-- The tables are switched to vertical mirroring and the second is written; then they are switched
to horizontal mirroring, and the first is written through a mirror of the data register. -/
def tabledPast : List BusAct :=
  [.write 0x3FFF 0x66, .write 0x2006 0x05, .write 0x2006 0x30,
    .write 0x8000 0, .write 0x8000 0, .write 0x8000 0, .write 0x8000 1, .write 0x8000 1,
    .write 0x2007 0x77, .write 0x2006 0x05, .write 0x2006 0x24,
    .write 0x8000 0, .write 0x8000 0, .write 0x8000 0, .write 0x8000 1, .write 0x8000 0]

theorem tables_follow_cartridge_switched :
    ∃ c events, Cartridge.ofImage tabledImage none {} = .ok (c, events) ∧
      ((MainBus.wire c {}).afterActs tabledPast).video.nameTables.mirroring.table 2 = 1 ∧
      ((MainBus.wire c {}).afterActs tabledPast).video.read 0x2805 = .ok 0x77 ∧
      ((MainBus.wire c {}).afterActs tabledPast).video.read 0x3005 = .ok 0x66 := by
  have happend : tabledHeader ++ (List.replicate 0x4000 0).toArray = tabledImage :=
    List.append_toArray ..
  have hwell : Image.WellFormed tabledImage :=
    happend ▸ .append rfl (by decide) (by decide) (by decide)
      (by rw [List.size_toArray, List.length_replicate]; decide)
  have hload := hwell.ofImage_eq none {}
  obtain ⟨-, -, htable, hread⟩ := tables_follow_cartridge hload {} tabledPast
  refine ⟨_, _, hload, (htable 2).trans ?_, (hread 0x2805 ?_ ?_).trans (congrArg Except.ok ?_),
    (hread 0x3005 ?_ ?_).trans (congrArg Except.ok ?_)⟩
  all_goals decide +kernel

end NesConsole
