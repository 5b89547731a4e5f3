import NesConsole.Proofs.Cartridge.Acceptance
import NesConsole.Proofs.SerialWrites

/-! Bank switching as a matter of history. Whatever a console reads and writes, an address above
`$8000` shows a byte of the program section in the bank that the writes so far select, and a picture
address one of the pattern section or, where the image brings none, the byte written last to its
cell. -/
namespace NesConsole
open SerialWrites

namespace Cartridge

inductive Access where
  | read (address : UInt16)
  | write (address : UInt16) (data : UInt8)
  | readPattern (address : UInt16)
  | writePattern (address : UInt16) (data : UInt8)

namespace Access

def run : Access → Cartridge → Option Cartridge
  | .read address, c => (c.read? address).map fun _ => c
  | .write address data, c => some (c.write address data)
  | .readPattern address, c => (c.readPattern? address).map fun _ => c
  | .writePattern address data, c => c.writePattern? address data

def select? : Access → Option Entry
  | .write address data => if 0x8000 ≤ address then some (address, data) else none
  | _ => none

end Access

def afterAccesses (c : Cartridge) : List Access → Option Cartridge
  | [] => some c
  | access :: past => (c.afterAccesses past).bind access.run

end Cartridge

/-! ### What a history selects -/

namespace Cartridge.Access
variable (mapper : Nat)

def selects (past : List Access) : List Entry := past.filterMap select?

def registers (past : List Access) : Values := after (selects past).reverse

def selected (past : List Access) : UInt8 := ((selects past).head?.map (·.2)).getD 0

def programBank (n : Nat) (past : List Access) (address : UInt16) : Nat :=
  match mapper with
  | 0 => if address < 0xC000 then 0 else min 1 (n - 1)
  | 1 => (registers past).programBank n address
  | _ => if address < 0xC000 then (selected past).toNat % n else n - 1

def patternCell (size : Nat) (past : List Access) (address : UInt16) : Nat :=
  if mapper = 1 then (registers past).patternPlace size address else address.toNat % 0x2000

def lastPattern (cell : Nat) : List Access → UInt8
  | [] => 0
  | .writePattern address data :: past =>
    if patternCell mapper 0x2000 past address = cell then data else lastPattern cell past
  | .read _ :: past | .write _ _ :: past | .readPattern _ :: past => lastPattern cell past

def mapperAfter (n : Nat) (past : List Access) : Mapper :=
  match mapper with
  | 0 => .nrom
  | 1 => .mmc1 (Mmc1.writeAll {} (selects past).reverse)
  | _ => .uxrom ((selected past).toNat % n)

theorem selects_cons (access : Access) (past : List Access) :
    selects (access :: past) = access.select?.toList ++ selects past := by
  cases h : access.select? with
  | none => simp [selects, h]
  | some e => simp [selects, h]

end Cartridge.Access

namespace Board
open Cartridge.Access
variable {b : Board} {mapper n : Nat} {past : List Cartridge.Access}

theorem programBanks_eq (hsize : b.program.size = n * 0x4000) (hn : 0 < n) :
    b.programBanks = n := by
  rw [programBanks, Bank.count, hsize, Nat.mul_div_cancel _ (by decide)]
  omega

/-- A write to the mapper goes into its history. -/
theorem mapper_write (hb : b.mapper = mapperAfter mapper n past) (hn : b.programBanks = n)
    {address : UInt16} (ha : 0x8000 ≤ address) (data : UInt8) :
    (b.write address data).mapper = mapperAfter mapper n (.write address data :: past) := by
  have hselects : selects (.write address data :: past) = (address, data) :: selects past := by
    simp [selects_cons, select?, ha]
  match mapper with
  | 0 => simp [write, hb, mapperAfter]
  | 1 => simp [write, hb, mapperAfter, hselects, Mmc1.writeAll]
  | k + 2 => simp [write, hb, mapperAfter, hselects, hn, selected]

theorem programBank_lt (hn : 0 < n) (address : UInt16) :
    programBank mapper n past address < n := by
  match mapper with
  | 0 =>
    simp only [programBank]
    split <;> omega
  | 1 => exact Nat.mod_lt _ hn
  | k + 2 =>
    simp only [programBank]
    split
    · exact Nat.mod_lt _ hn
    · omega

/-- The byte behind a processor address stands in the bank that the history selects. -/
theorem read?_eq (hb : b.mapper = mapperAfter mapper n past)
    (hsize : b.program.size = n * 0x4000) (hn : 0 < n) {address : UInt16} (ha : 0x8000 ≤ address) :
    b.read? address = b.program.bytes[programBank mapper n past address * 0x4000 +
      address.toNat % 0x4000]? := by
  have hlow : 0x8000 ≤ address.toNat := UInt16.le_iff_toNat_le.1 ha
  have hhigh := address.toNat_lt
  have hside : address < 0xC000 ↔ address.toNat < 0xC000 := UInt16.lt_iff_toNat_lt
  have hbanks := programBanks_eq hsize hn
  match mapper with
  | 0 =>
    have hplace : address.toNat % (if 0x4000 < b.program.size then 0x8000 else 0x4000) =
        programBank 0 n past address * 0x4000 + address.toNat % 0x4000 := by
      simp only [programBank, hside]
      by_cases hone : n = 1
      · rw [if_neg (by omega), hone]
        split <;> omega
      · rw [if_pos (by omega)]
        split <;> omega
    simp only [read?, hb, mapperAfter, Rom.get?, hplace]
  | 1 =>
    have hvalues := Mmc1.values_writeAll (selects past).reverse
    rw [b.read?_mmc1 _ hb (n - 1) (by rw [hsize, Nat.sub_add_cancel hn]), hvalues,
      Values.programPlace, hsize, Nat.mul_div_cancel _ (by decide)]
    rfl
  | k + 2 =>
    have hlt : programBank (k + 2) n past address < n := programBank_lt hn address
    have hbank : (if address < 0xC000 then (selected past).toNat % n else n - 1) % n =
        programBank (k + 2) n past address := Nat.mod_eq_of_lt hlt
    have hcount : Bank.count b.program.size 0x4000 = n := hbanks
    simp [read?, hb, mapperAfter, Rom.banked?, Rom.get?, Bank.place?, Bank.count?, hbanks, hcount,
      hbank]

/-- The cell that a history selects is where the board looks for a pattern. -/
theorem place?_eq (hb : b.mapper = mapperAfter mapper n past) (address : UInt16) :
    Bank.place? b.patterns.bytes.size (b.patternPlace address).1 (b.patternPlace address).2.1
      (b.patternPlace address).2.2 =
        some (patternCell mapper b.patterns.bytes.size past address) := by
  match mapper with
  | 0 => simp [patternPlace, hb, mapperAfter, Bank.place?, Bank.count?, patternCell]
  | 1 =>
    have hvalues := Mmc1.values_writeAll (selects past).reverse
    simp [patternPlace, hb, mapperAfter, Bank.place?, Bank.count?, patternCell, Values.patternPlace,
      registers, ← hvalues, ← Mmc1.patternBank_mod, Bank.count]
  | k + 2 => simp [patternPlace, hb, mapperAfter, Bank.place?, Bank.count?, patternCell]

/-- The sections of a board stay with it. -/
theorem write_sections (b : Board) (address : UInt16) (data : UInt8) :
    (b.write address data).program = b.program ∧ (b.write address data).patterns = b.patterns := by
  cases hb : b.mapper <;> simp [write, hb]

theorem readPattern?_eq (hb : b.mapper = mapperAfter mapper n past) (address : UInt16) :
    b.readPattern? address =
      b.patterns.bytes[patternCell mapper b.patterns.bytes.size past address]? := by
  have hplace := place?_eq hb address
  simp only [readPattern?, PatternMemory.read?, hplace, Option.bind_some]

theorem writePattern?_eq (hb : b.mapper = mapperAfter mapper n past) (address : UInt16)
    (data : UInt8)
    (hlt : patternCell mapper b.patterns.bytes.size past address < b.patterns.bytes.size) :
    b.writePattern? address data = some { b with patterns := { b.patterns with
      bytes := if b.patterns.writable then
        b.patterns.bytes.set (patternCell mapper b.patterns.bytes.size past address) data
        else b.patterns.bytes } } := by
  have hplace := place?_eq hb address
  simp only [writePattern?, PatternMemory.write?, hplace, dif_pos hlt]
  by_cases hw : b.patterns.writable = true
  · simp only [if_pos hw, Option.map_some]
  · simp only [if_neg hw, Option.map_some]

end Board

namespace Cartridge.Access
variable {mapper size : Nat} {past : List Access}

/-- A picture address counts modulo 8 KiB. -/
theorem patternCell_mod (address : UInt16) :
    patternCell mapper size past (address % 0x2000) = patternCell mapper size past address := by
  have hmod : (address % 0x2000).toNat = address.toNat % 0x2000 := UInt16.toNat_mod ..
  have hhalf : address.toNat % 0x2000 / 0x1000 % 2 = address.toNat / 0x1000 % 2 := by omega
  have hoffset : address.toNat % 0x2000 % 0x1000 = address.toNat % 0x1000 := by omega
  simp only [patternCell, Values.patternPlace, Values.patternBank, hmod, hhalf, hoffset,
    Nat.mod_mod]

theorem patternCell_lt (h : 0x2000 ≤ size) (address : UInt16) :
    patternCell mapper size past address < size := by
  unfold patternCell
  split
  · exact Values.patternPlace_lt _ size address (by omega)
  · omega

theorem mapperAfter_of_select? {n : Nat} {access : Access} (h : access.select? = none) :
    mapperAfter mapper n (access :: past) = mapperAfter mapper n past := by
  have hselects : selects (access :: past) = selects past := by simp [selects_cons, h]
  simp only [mapperAfter, selected, hselects]

end Cartridge.Access

namespace Cartridge
open Image Cartridge.Access

structure Switched (image : Array UInt8) (past : List Access) (c : Cartridge) : Prop where
  program : c.board.program = (Image.board image).program
  mapper : c.board.mapper = mapperAfter (mapperNumber image) (programBanks image) past
  rom : 0 < patternBanks image →
    c.board.patterns = ⟨image.extract (programEnd image) (patternEnd image), false⟩
  ram : patternBanks image = 0 → c.board.patterns.writable = true ∧
    c.board.patterns.bytes.size = 0x2000 ∧ ∀ cell < 0x2000,
      c.board.patterns.bytes[cell]? = some (lastPattern (mapperNumber image) cell past)

namespace Switched
variable {image : Array UInt8} {past : List Access} {c : Cartridge}

theorem of_ofImage {path : Option String} {d : Disk} {events : List CartridgeEvent}
    (h : ofImage image path d = .ok (c, events)) : WellFormed image ∧ c.Switched image [] := by
  obtain ⟨hwell, hc⟩ := wellFormed_of_ofImage h
  obtain rfl := congrArg Prod.fst hc
  have hwhole := hwell.whole
  have hend : patternEnd image = programEnd image + 0x2000 * patternBanks image := rfl
  refine ⟨hwell, rfl, ?_, fun hbanks => ?_, fun hbanks => ?_⟩
  · have hboard := hwell.board
    change (Mapper.ofNumber? (mapperNumber image)).getD .nrom = _
    generalize mapperNumber image = m at hboard
    match m with
    | 0 | 1 => rfl
    | 2 => exact congrArg Mapper.uxrom (Nat.zero_mod _).symm
  · have hne : (image.extract (programEnd image) (patternEnd image)).isEmpty = false := by
      simp only [Array.isEmpty_eq_false_iff, ne_eq, Array.extract_eq_empty_iff]
      omega
    simp [Image.cartridge, Image.board, PatternMemory.ofRom, hne]
  · have hempty : image.extract (programEnd image) (patternEnd image) = #[] := by
      rw [Array.extract_eq_empty_iff]
      omega
    have hpatterns : (Image.cartridge image path d).1.board.patterns =
        ⟨Array.replicate 0x2000 0, true⟩ := by
      change (Image.board image).patterns = _
      rw [Image.board, hempty]
      rfl
    simp only [hpatterns, Array.size_replicate, true_and]
    intro cell hcell
    rw [Array.getElem?_replicate, if_pos hcell]
    rfl

theorem size_program (h : c.Switched image past) (hwell : WellFormed image) :
    c.board.program.size = programBanks image * 0x4000 := by
  have hwhole := hwell.whole
  have hend : programEnd image = programStart image + 0x4000 * programBanks image := rfl
  have hend' : patternEnd image = programEnd image + 0x2000 * patternBanks image := rfl
  rw [h.program, Image.board, Rom.size, Array.size_extract]
  omega

theorem size_patterns (h : c.Switched image past) (hwell : WellFormed image) :
    c.board.patterns.bytes.size =
      if patternBanks image = 0 then 0x2000 else 0x2000 * patternBanks image := by
  have hwhole := hwell.whole
  have hend : patternEnd image = programEnd image + 0x2000 * patternBanks image := rfl
  by_cases hbanks : patternBanks image = 0
  · rw [if_pos hbanks]
    exact (h.ram hbanks).2.1
  · rw [if_neg hbanks, h.rom (by omega), Array.size_extract]
    omega

/-- An address from `$8000` up shows the program section in the bank selected. -/
theorem read? (h : c.Switched image past) (hwell : WellFormed image) {address : UInt16}
    (ha : 0x8000 ≤ address) : ∃ byte, c.read? address = some byte ∧
      image[programStart image + programBank (mapperNumber image) (programBanks image) past
        address * 0x4000 + address.toNat % 0x4000]? = some byte := by
  have hwhole := hwell.whole
  have hend : programEnd image = programStart image + 0x4000 * programBanks image := rfl
  have hend' : patternEnd image = programEnd image + 0x2000 * patternBanks image := rfl
  have hlt : programBank (mapperNumber image) (programBanks image) past address <
      programBanks image := Board.programBank_lt hwell.banks address
  have hread : c.read? address = image[programStart image + (programBank (mapperNumber image)
      (programBanks image) past address * 0x4000 + address.toNat % 0x4000)]? := by
    rw [Cartridge.read?, if_pos ha, Board.read?_eq h.mapper (h.size_program hwell) hwell.banks ha,
      h.program, Image.board, getElem?_extract_eq, if_pos (by omega)]
  rw [hread, ← Nat.add_assoc, Array.getElem?_eq_getElem (by omega)]
  exact ⟨_, rfl, rfl⟩

theorem readPattern? (h : c.Switched image past) (address : UInt16) :
    c.readPattern? address = c.board.patterns.bytes[patternCell (mapperNumber image)
      c.board.patterns.bytes.size past address]? := by
  rw [Cartridge.readPattern?, Board.readPattern?_eq h.mapper, patternCell_mod]

theorem patternCell_lt (h : c.Switched image past) (hwell : WellFormed image) (address : UInt16) :
    patternCell (mapperNumber image) c.board.patterns.bytes.size past address <
      c.board.patterns.bytes.size := by
  refine Access.patternCell_lt ?_ address
  rw [h.size_patterns hwell]
  split <;> omega

theorem exists_read (h : c.Switched image past) (hwell : WellFormed image) (address : UInt16) :
    ∃ byte, c.read? address = some byte := by
  by_cases ha : 0x8000 ≤ address
  · obtain ⟨byte, hbyte, -⟩ := h.read? hwell ha
    exact ⟨byte, hbyte⟩
  · rw [Cartridge.read?, if_neg ha]
    split
    · split <;> exact ⟨_, rfl⟩
    · exact ⟨0, rfl⟩

theorem exists_readPattern (h : c.Switched image past) (hwell : WellFormed image)
    (address : UInt16) : ∃ byte, c.readPattern? address = some byte := by
  rw [h.readPattern?, Array.getElem?_eq_getElem (h.patternCell_lt hwell address)]
  exact ⟨_, rfl⟩

/-- An access that does not reach the board. -/
theorem still (h : c.Switched image past) {c' : Cartridge} (hboard : c'.board = c.board)
    {access : Access} (hselect : access.select? = none)
    (hlast : ∀ cell, lastPattern (mapperNumber image) cell (access :: past) =
      lastPattern (mapperNumber image) cell past) : c'.Switched image (access :: past) := by
  refine ⟨hboard ▸ h.program, ?_, hboard ▸ h.rom, fun hbanks => ?_⟩
  · rw [hboard, h.mapper, mapperAfter_of_select? hselect]
  · simp only [hboard, hlast]
    exact h.ram hbanks

theorem write (h : c.Switched image past) (hwell : WellFormed image) (address : UInt16)
    (data : UInt8) : (c.write address data).Switched image (.write address data :: past) := by
  by_cases ha : 0x8000 ≤ address
  · obtain ⟨hprogram, hpatterns⟩ := c.board.write_sections address data
    have hboard : (c.write address data).board = c.board.write address data := by
      rw [Cartridge.write, if_pos ha]
    have hbanks := Board.programBanks_eq (h.size_program hwell) hwell.banks
    refine ⟨?_, ?_, ?_, ?_⟩
    · rw [hboard, hprogram, h.program]
    · rw [hboard, Board.mapper_write h.mapper hbanks ha]
    · rw [hboard, hpatterns]
      exact h.rom
    · rw [hboard, hpatterns]
      exact h.ram
  · refine h.still ?_ (if_neg ha) fun _ => rfl
    rw [Cartridge.write, if_neg ha]
    split
    · split <;> rfl
    · rfl

theorem writePattern (h : c.Switched image past) (hwell : WellFormed image) (address : UInt16)
    (data : UInt8) : ∃ c', c.writePattern? address data = some c' ∧
      c'.Switched image (.writePattern address data :: past) := by
  have hlt := h.patternCell_lt hwell address
  have hwrite := Board.writePattern?_eq h.mapper (address % 0x2000) data
    (by rwa [patternCell_mod])
  simp only [patternCell_mod] at hwrite
  obtain ⟨c', hc', hprogram, hmapper, hpatterns⟩ : ∃ c', c.writePattern? address data = some c' ∧
      c'.board.program = c.board.program ∧ c'.board.mapper = c.board.mapper ∧
      c'.board.patterns = { c.board.patterns with
        bytes := if c.board.patterns.writable then c.board.patterns.bytes.set
          (patternCell (mapperNumber image) c.board.patterns.bytes.size past address) data
          else c.board.patterns.bytes } := by
    rw [Cartridge.writePattern?, hwrite]
    exact ⟨_, rfl, rfl, rfl, rfl⟩
  refine ⟨c', hc', hprogram.trans h.program, ?_, fun hbanks => ?_, fun hbanks => ?_⟩
  · rw [hmapper, h.mapper, mapperAfter_of_select? rfl]
  · have hrom := h.rom hbanks
    have hw : ¬c.board.patterns.writable = true := by
      rw [hrom]
      nofun
    rw [hpatterns, if_neg hw]
    exact hrom
  · obtain ⟨hw, hsize, hcells⟩ := h.ram hbanks
    rw [hpatterns, if_pos hw]
    refine ⟨hw, (Array.size_set hlt).trans hsize, fun cell hcell => ?_⟩
    simp only [Array.getElem?_set, hcells cell hcell, lastPattern, hsize]
    split <;> rfl

/-- A history goes on with any access, and none is refused. -/
theorem cons (h : c.Switched image past) (hwell : WellFormed image) (access : Access) :
    ∃ c', access.run c = some c' ∧ c'.Switched image (access :: past) := by
  cases access with
  | read address =>
    obtain ⟨byte, hbyte⟩ := h.exists_read hwell address
    exact ⟨c, by rw [Access.run, hbyte]; rfl, h.still rfl rfl fun _ => rfl⟩
  | write address data => exact ⟨_, rfl, h.write hwell address data⟩
  | readPattern address =>
    obtain ⟨byte, hbyte⟩ := h.exists_readPattern hwell address
    exact ⟨c, by rw [Access.run, hbyte]; rfl, h.still rfl rfl fun _ => rfl⟩
  | writePattern address data => exact h.writePattern hwell address data

end Switched

theorem exists_switched {image : Array UInt8} {c : Cartridge} (hwell : WellFormed image)
    (h : c.Switched image []) (past : List Access) :
    ∃ c', c.afterAccesses past = some c' ∧ c'.Switched image past := by
  induction past with
  | nil => exact ⟨c, rfl, h⟩
  | cons access past ih =>
    obtain ⟨c₁, hpast, h₁⟩ := ih
    obtain ⟨c₂, hrun, h₂⟩ := h₁.cons hwell access
    refine ⟨c₂, ?_, h₂⟩
    rw [afterAccesses, hpast]
    exact hrun

/-- After any history of accesses an address from `$8000` up shows the image's program section in
the bank selected, a picture address its pattern section or, where there is none, the byte written
last to the cell. No access is refused. -/
theorem banks_show_image {image : Array UInt8} {path : Option String} {d : Disk} {c : Cartridge}
    {events : List CartridgeEvent} (h : ofImage image path d = .ok (c, events))
    (past : List Access) : ∃ c', c.afterAccesses past = some c' ∧
      (∀ address, 0x8000 ≤ address →
        let bank := programBank (mapperNumber image) (programBanks image) past address
        bank < programBanks image ∧ ∃ byte, c'.read? address = some byte ∧
          image[programStart image + bank * 0x4000 + address.toNat % 0x4000]? = some byte) ∧
      (0 < patternBanks image → ∀ address,
        let cell := patternCell (mapperNumber image) (0x2000 * patternBanks image) past address
        cell < 0x2000 * patternBanks image ∧ ∃ byte, c'.readPattern? address = some byte ∧
          image[programEnd image + cell]? = some byte) ∧
      (patternBanks image = 0 → ∀ address, c'.readPattern? address = some (lastPattern
        (mapperNumber image) (patternCell (mapperNumber image) 0x2000 past address) past)) := by
  obtain ⟨hwell, hstart⟩ := Switched.of_ofImage h
  obtain ⟨c', hpast, h'⟩ := exists_switched hwell hstart past
  refine ⟨c', hpast, fun address ha => ⟨Board.programBank_lt hwell.banks address,
    h'.read? hwell ha⟩, fun hbanks address => ?_, fun hbanks address => ?_⟩
  · have hsize := h'.size_patterns hwell
    have hlt := h'.patternCell_lt hwell address
    obtain ⟨byte, hbyte⟩ := h'.exists_readPattern hwell address
    have hread := h'.readPattern? address
    rw [if_neg (by omega)] at hsize
    rw [hsize] at hlt hread
    refine ⟨hlt, byte, hbyte, ?_⟩
    have hend : patternEnd image = programEnd image + 0x2000 * patternBanks image := rfl
    rw [← hbyte, hread, h'.rom hbanks, getElem?_extract_eq, if_pos (by omega)]
  · obtain ⟨hw, hsize, hcells⟩ := h'.ram hbanks
    have hlt := h'.patternCell_lt hwell address
    have hread := h'.readPattern? address
    rw [hsize] at hlt hread
    rw [hread, hcells _ hlt]

/-- Three program banks that are switched, each filled with its number, and pattern RAM. -/
def switchedHeader : Array UInt8 :=
  #[0x4E, 0x45, 0x53, 0x1A, 3, 0, 0x20, 0, 0, 0, 0, 0, 0, 0, 0, 0]

def switchedImage : Array UInt8 :=
  switchedHeader ++ Array.ofFn fun i : Fin 0xC000 => UInt8.ofNat (i.val / 0x4000)

def switchedPast : List Access :=
  [.writePattern 0x0005 9, .write 0x7FFF 1, .write 0xFFFF 5, .writePattern 0x2005 7,
    .write 0x8000 1]

theorem banks_show_image_switched : ∃ c events c',
    ofImage switchedImage none {} = .ok (c, events) ∧ c.afterAccesses switchedPast = some c' ∧
    c'.read? 0x8123 = some 2 ∧ c'.read? 0xC123 = some 2 ∧ c'.readPattern? 0x0005 = some 9 := by
  have hhead : switchedHeader.size = 16 := rfl
  have hheader : Image.header switchedImage = Image.header switchedHeader :=
    header_append hhead _
  have hwell : WellFormed switchedImage :=
    .append hhead (by decide) (by decide) (by decide) (by rw [Array.size_ofFn]; decide)
  obtain ⟨hbanks, hpatterns, hmapper⟩ : programBanks switchedImage = 3 ∧
      patternBanks switchedImage = 0 ∧ mapperNumber switchedImage = 2 := counts_congr hheader
  have hstart : programStart switchedImage = 16 := (bounds_congr hheader).1
  obtain ⟨c', hpast, hprogram, -, hram⟩ :=
    banks_show_image (hwell.ofImage_eq none {}) switchedPast
  have hbyte : switchedImage[16 + 2 * 0x4000 + 0x123]? = some 2 := by
    rw [switchedImage, Array.getElem?_append_right (by rw [hhead]; decide), hhead,
      Array.getElem?_ofFn]
    rfl
  have hread {address : UInt16} (ha : 0x8000 ≤ address)
      (hbank : programBank 2 3 switchedPast address = 2)
      (hoffset : address.toNat % 0x4000 = 0x123) :
      c'.read? address = some 2 := by
    obtain ⟨-, byte, hbyte', himage⟩ := hprogram address ha
    rw [hmapper, hbanks, hstart, hbank, hoffset, hbyte] at himage
    rw [hbyte', himage]
  refine ⟨_, _, c', hwell.ofImage_eq none {}, hpast, hread (by decide) (by decide) (by decide),
    hread (by decide) (by decide) (by decide), ?_⟩
  rw [hram hpatterns, hmapper]
  rfl

end Cartridge
end NesConsole
