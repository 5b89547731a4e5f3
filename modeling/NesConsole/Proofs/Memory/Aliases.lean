import NesConsole.Proofs.Cartridge.Banks
import NesConsole.Proofs.Cartridge.TableWiring

/-! The address space of the picture unit as one memory whose cells have several addresses: banks
may show a pattern twice, a table stands in one or more quarters and in the mirror above them, and
four entries of palette memory have two places. A byte written at an address is read at the
addresses of its cell and at no other. -/
namespace NesConsole
open Image Cartridge Cartridge.Access TableCell

inductive VideoCell where
  | pattern (place : Nat)
  | table (cell : TableCell)
  | palette (entry : Nat)
  deriving DecidableEq

/-- The entry of palette memory at an address. The first of each sprite palette is the first of the
background palette beside it. -/
def paletteEntry (address : UInt16) : Nat :=
  match address.toNat % 32 with
  | 0x10 => 0x00
  | 0x14 => 0x04
  | 0x18 => 0x08
  | 0x1C => 0x0C
  | n => n

def Image.patternSize (image : Array UInt8) : Nat :=
  if patternBanks image = 0 then 0x2000 else 0x2000 * patternBanks image

def videoCell (image : Array UInt8) (past : List Cartridge.Access) (m : Mirroring)
    (address : UInt16) : VideoCell :=
  let address := address % 0x4000
  if address < 0x2000 then
    .pattern (patternCell (mapperNumber image) (patternSize image) past address)
  else if address < 0x3F00 then .table (m.table (quarter address), offset address)
  else .palette (paletteEntry address)

/-- What a cell holds once a byte is written to it. Patterns that the image brings stay. -/
def VideoCell.stores (image : Array UInt8) (old data : UInt8) : VideoCell → UInt8
  | .pattern _ => if patternBanks image = 0 then data else old
  | .table _ => data
  | .palette _ => data &&& 0x3F

theorem PaletteMemory.index_eq (address : UInt16) :
    (PaletteMemory.index address).val = paletteEntry address := by
  have hdigit : address.toNat % 4 = address.toNat % 32 % 4 := by omega
  have hentry : ∀ n < 32, (if 16 ≤ n ∧ n % 4 = 0 then n - 16 else n) =
      match n with
      | 0x10 => 0x00
      | 0x14 => 0x04
      | 0x18 => 0x08
      | 0x1C => 0x0C
      | n => n := by decide
  unfold PaletteMemory.index paletteEntry
  rw [hdigit, apply_ite Fin.val]
  exact hentry _ (Nat.mod_lt _ (by decide))

theorem PaletteMemory.entry_write (m : PaletteMemory) (address : UInt16) (data : UInt8)
    (entry : Nat) : (m.write address data).cells[entry]?.getD 0 =
      if entry = paletteEntry address then data &&& 0x3F else m.cells[entry]?.getD 0 := by
  have hlt := (PaletteMemory.index address).isLt
  rw [← PaletteMemory.index_eq, PaletteMemory.write]
  simp only [Vector.getElem?_set, @eq_comm _ entry]
  split
  · rfl
  · rfl

namespace Cartridge.Switched
variable {image : Array UInt8} {past : List Cartridge.Access} {c c' : Cartridge}

/-- A write to the patterns, cell by cell. -/
theorem byte_writePattern (h : c.Switched image past) {address : UInt16} {data : UInt8}
    (h' : c'.Switched image (.writePattern address data :: past)) (place : Nat) :
    c'.board.patterns.bytes[place]?.getD 0 =
      if place = patternCell (mapperNumber image) (patternSize image) past address then
        (if patternBanks image = 0 then data else c.board.patterns.bytes[place]?.getD 0)
      else c.board.patterns.bytes[place]?.getD 0 := by
  by_cases hbanks : patternBanks image = 0
  · obtain ⟨-, hsize, hcells⟩ := h.ram hbanks
    obtain ⟨-, hsize', hcells'⟩ := h'.ram hbanks
    have hcell : patternCell (mapperNumber image) 0x2000 past address < 0x2000 :=
      Cartridge.Access.patternCell_lt (Nat.le_refl 0x2000) address
    rw [patternSize, if_pos hbanks, if_pos hbanks]
    by_cases hplace : place < 0x2000
    · rw [hcells place hplace, hcells' place hplace, lastPattern]
      simp only [Option.getD_some, @eq_comm _ place]
    · rw [Array.getElem?_eq_none (by omega), Array.getElem?_eq_none (by omega),
        if_neg (by omega)]
  · have hrom : 0 < patternBanks image := Nat.pos_of_ne_zero hbanks
    rw [h.rom hrom, h'.rom hrom, if_neg hbanks, ite_self]

end Cartridge.Switched

namespace VideoBus
variable {v : VideoBus} {image : Array UInt8} {past : List Cartridge.Access}

def byteIn (v : VideoBus) : VideoCell → UInt8
  | .pattern place => v.cartridge.board.patterns.bytes[place]?.getD 0
  | .table cell => v.nameTables.byte cell
  | .palette entry => v.palette.cells[entry]?.getD 0

/-- The two highest bits of an address are not wired. -/
theorem lines_lt (address : UInt16) : address % 0x4000 < 0x4000 := UInt16.mod_lt _ (by decide)

theorem read_lines (v : VideoBus) (address : UInt16) :
    v.read (address % 0x4000) = v.read address := by
  unfold VideoBus.read
  rw [mod_lines (lines_lt address)]

theorem write_lines (v : VideoBus) (address : UInt16) (data : UInt8) :
    v.write (address % 0x4000) data = v.write address data := by
  unfold VideoBus.write
  rw [mod_lines (lines_lt address)]

/-- A read shows the byte in the cell. -/
theorem read_cell (hwell : WellFormed image) (h : v.cartridge.Switched image past)
    (address : UInt16) :
    v.read address = .ok (v.byteIn (videoCell image past v.nameTables.mirroring address)) := by
  have hlt := lines_lt address
  rw [← read_lines, videoCell]
  generalize address % 0x4000 = address at hlt
  by_cases hpattern : address < 0x2000
  · have hplace := h.patternCell_lt hwell address
    have hread : v.cartridge.readPattern? address = _ := h.readPattern? address
    rw [if_pos hpattern, patternSize, ← h.size_patterns hwell, VideoBus.read]
    dsimp only [byteIn]
    rw [mod_lines hlt, videoMap_owner?_eq, if_pos hpattern, hread,
      Array.getElem?_eq_getElem hplace]
    rfl
  have hlow := UInt16.not_lt.1 hpattern
  rw [if_neg hpattern]
  by_cases htable : address < 0x3F00
  · rw [if_pos htable, read_table hlow htable]
    rfl
  · have hmiddle : ¬address < 0x3000 := fun h => htable (UInt16.lt_trans h (by decide))
    rw [if_neg htable, VideoBus.read]
    dsimp only [byteIn]
    rw [mod_lines hlt, videoMap_owner?_eq, if_neg hpattern, if_neg hmiddle, if_neg htable,
      if_pos hlt, ← PaletteMemory.index_eq]
    simp [PaletteMemory.read]

/-- A write to the patterns of a board that has RAM goes to its cell, and the banks stay. -/
theorem write_pattern (hwell : WellFormed image) (h : v.cartridge.Switched image past)
    {address : UInt16} (hlt : address < 0x2000) (data : UInt8) :
    ∃ c es, v.write address data = .ok () (note es { v with cartridge := c }) ∧
      c.Switched image (.writePattern address data :: past) := by
  have hlines : address < 0x4000 := UInt16.lt_trans hlt (by decide)
  obtain ⟨c, hwrite, hc⟩ := h.writePattern hwell address data
  unfold VideoBus.write
  dsimp only
  rw [mod_lines hlines, videoMap_owner?_eq, if_pos hlt]
  dsimp only
  rw [hwrite]
  exact ⟨c, _, rfl, hc⟩

theorem write_palette {address : UInt16} (hlow : 0x3F00 ≤ address) (hlt : address < 0x4000)
    (data : UInt8) (v : VideoBus) :
    v.write address data = .ok () { v with palette := v.palette.write address data } := by
  have hle {bound : UInt16} (hbound : bound ≤ 0x3F00) : ¬address < bound :=
    UInt16.not_lt.2 (UInt16.le_trans hbound hlow)
  unfold VideoBus.write
  dsimp only
  rw [mod_lines hlt, videoMap_owner?_eq, if_neg (hle (by decide)), if_neg (hle (by decide)),
    if_neg (hle (by decide)), if_pos hlt]

/-- What a write leaves: every address shows the cell that it showed before, and of all cells only
`place` has taken the byte. -/
structure Puts (image : Array UInt8) (past : List Cartridge.Access) (place : VideoCell)
    (data : UInt8) (v v' : VideoBus) : Prop where
  shows (b : UInt16) : v'.read b = .ok (v'.byteIn (videoCell image past v.nameTables.mirroring b))
  bytes (k : VideoCell) : v'.byteIn k =
    if k = place then k.stores image (v.byteIn k) data else v.byteIn k

theorem puts_pattern (hwell : WellFormed image) (h : v.cartridge.Switched image past)
    {address : UInt16} (hlt : address < 0x2000) (data : UInt8) :
    ∃ v', v.write address data = .ok () v' ∧ Puts image past
      (.pattern (patternCell (mapperNumber image) (patternSize image) past address)) data v v' := by
  obtain ⟨c, es, hwrite, hc⟩ := write_pattern hwell h hlt data
  refine ⟨note es { v with cartridge := c }, hwrite, fun b => ?_, fun k => ?_⟩
  · -- The banks are as the history before the write selects them.
    have hread := read_cell (v := note es { v with cartridge := c }) hwell hc b
    exact hread
  · cases k with
    | table | palette => rfl
    | pattern place =>
      simp only [VideoCell.pattern.injEq, VideoCell.stores]
      exact h.byte_writePattern hc place

theorem puts_table (hwell : WellFormed image) (h : v.cartridge.Switched image past)
    {address : UInt16} (hlow : 0x2000 ≤ address) (hhigh : address < 0x3F00) (data : UInt8) :
    ∃ v', v.write address data = .ok () v' ∧
      Puts image past (.table (v.nameTables.cell address)) data v v' := by
  obtain ⟨t, hwrite, hmirroring, hbytes⟩ := v.write_table hlow hhigh data
  refine ⟨_, hwrite, fun b => ?_, fun k => ?_⟩
  · have hread := read_cell (v := { v with nameTables := t }) hwell h b
    rwa [hmirroring] at hread
  · cases k with
    | pattern | palette => rfl
    | table k =>
      refine (hbytes k).trans ?_
      simp only [TableCell.shows, VideoCell.table.injEq, eq_comm]
      rfl

theorem puts_palette (hwell : WellFormed image) (h : v.cartridge.Switched image past)
    {address : UInt16} (hlow : 0x3F00 ≤ address) (hlt : address < 0x4000) (data : UInt8) :
    ∃ v', v.write address data = .ok () v' ∧
      Puts image past (.palette (paletteEntry address)) data v v' := by
  refine ⟨_, write_palette hlow hlt data v, fun b => ?_, fun k => ?_⟩
  · exact read_cell (v := { v with palette := v.palette.write address data }) hwell h b
  · cases k with
    | pattern | table => rfl
    | palette entry =>
      simp only [VideoCell.palette.injEq, VideoCell.stores]
      exact v.palette.entry_write address data entry

/-- No write is refused, and the cell at its address takes the byte. -/
theorem write_cell (hwell : WellFormed image) (h : v.cartridge.Switched image past)
    (address : UInt16) (data : UInt8) : ∃ v', v.write address data = .ok () v' ∧
      Puts image past (videoCell image past v.nameTables.mirroring address) data v v' := by
  have hlt := lines_lt address
  rw [← write_lines, videoCell]
  generalize address % 0x4000 = address at hlt
  by_cases hpattern : address < 0x2000
  · simp only [if_pos hpattern]
    exact puts_pattern hwell h hpattern data
  · simp only [if_neg hpattern]
    by_cases htable : address < 0x3F00
    · rw [if_pos htable]
      exact puts_table hwell h (UInt16.not_lt.1 hpattern) htable data
    · rw [if_neg htable]
      exact puts_palette hwell h (UInt16.not_lt.1 htable) hlt data

end VideoBus

/-- On the bus of the picture unit, with a cartridge after any history, its tables wired and filled
in any way: no access is refused, a read changes nothing, and after a write an address shows what
the write stores if it has the cell written, and else what it showed before. -/
theorem video_memory_is_aliased {image : Array UInt8} {path : Option String} {d : Disk}
    {start : Cartridge} {events : List CartridgeEvent}
    (h : Cartridge.ofImage image path d = .ok (start, events)) (past : List Cartridge.Access) :
    ∃ c, start.afterAccesses past = some c ∧ ∀ v : VideoBus, v.cartridge = c →
      let cell := videoCell image past v.nameTables.mirroring
      ∀ a b data, (∃ byte, v.read b = .ok byte ∧ Bus.read b v = .ok byte v) ∧
        ∃ v' old, Bus.write a data v = .ok () v' ∧ v.read b = .ok old ∧
          v'.read b = .ok (if cell b = cell a then (cell a).stores image old data else old) := by
  obtain ⟨hwell, hstart⟩ := Switched.of_ofImage h
  obtain ⟨c, hpast, hc⟩ := exists_switched hwell hstart past
  refine ⟨c, hpast, ?_⟩
  rintro v rfl cell a b data
  have hread := VideoBus.read_cell hwell hc b
  obtain ⟨v', hwrite, hputs⟩ := VideoBus.write_cell hwell hc a data
  refine ⟨⟨_, hread, ?_⟩, v', _, hwrite, hread, ?_⟩
  · dsimp only [Bus.read]
    rw [hread]
  · rw [hputs.shows b, hputs.bytes]
    by_cases hsame : cell b = cell a
    · rw [if_pos hsame, if_pos hsame, ← hsame]
    · rw [if_neg hsame, if_neg hsame]

/-- The halves of the pattern memory of an MMC1 are switched on their own, and both show bank 1. -/
def twinPast : List Cartridge.Access :=
  [.write 0xC000 0, .write 0xC000 0, .write 0xC000 0, .write 0xC000 0, .write 0xC000 1,
    .write 0xA000 0, .write 0xA000 0, .write 0xA000 0, .write 0xA000 0, .write 0xA000 1,
    .write 0x8000 1, .write 0x8000 0, .write 0x8000 0, .write 0x8000 0, .write 0x8000 0]

def twinBus (c : Cartridge) : VideoBus := { cartridge := c, nameTables := .blank .vertical }

theorem video_memory_is_aliased_twin : ∃ start events c,
    Cartridge.ofImage tabledImage none {} = .ok (start, events) ∧
    start.afterAccesses twinPast = some c ∧
    (∃ v', Bus.write 0x0123 0x77 (twinBus c) = .ok () v' ∧ v'.read 0x5123 = .ok 0x77) ∧
    (∃ v', Bus.write 0x3F10 0xFF (twinBus c) = .ok () v' ∧ v'.read 0x3F20 = .ok 0x3F) ∧
    ∃ v', Bus.write 0x2005 0x66 (twinBus c) = .ok () v' ∧ v'.read 0x3805 = .ok 0x66 := by
  have happend : tabledHeader ++ (List.replicate 0x4000 0).toArray = tabledImage :=
    List.append_toArray ..
  have hwell : WellFormed tabledImage :=
    happend ▸ .append rfl (by decide) (by decide) (by decide)
      (by rw [List.size_toArray, List.length_replicate]; decide)
  have hheader : Image.header tabledImage = Image.header tabledHeader :=
    happend ▸ header_append rfl _
  obtain ⟨-, hbanks, hmapper⟩ : _ ∧ patternBanks tabledImage = 0 ∧ mapperNumber tabledImage = 1 :=
    counts_congr hheader
  have hload := hwell.ofImage_eq none {}
  obtain ⟨c, hpast, halias⟩ := video_memory_is_aliased hload twinPast
  have hstored {a b : UInt16} {data byte : UInt8}
      (hcell : videoCell tabledImage twinPast .vertical b =
        videoCell tabledImage twinPast .vertical a)
      (hbyte : ∀ old, (videoCell tabledImage twinPast .vertical a).stores tabledImage old data =
        byte) : ∃ v', Bus.write a data (twinBus c) = .ok () v' ∧ v'.read b = .ok byte := by
    obtain ⟨-, v', old, hwrite, -, hread⟩ := halias (twinBus c) rfl a b data
    exact ⟨v', hwrite, hread.trans (congrArg Except.ok ((if_pos hcell).trans (hbyte old)))⟩
  refine ⟨_, _, c, hload, hpast, hstored ?_ fun old => ?_, hstored ?_ fun old => ?_,
    hstored ?_ fun old => ?_⟩
  all_goals
    simp only [videoCell, patternSize, VideoCell.stores, hbanks, hmapper]
    rfl

end NesConsole
