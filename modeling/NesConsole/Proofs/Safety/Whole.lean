import NesConsole.Proofs.IdleLoop
import NesConsole.Proofs.SerialWrites

/-! Cartridges with whole memories. An accepted image gives one, no access takes a part away, and
every byte that a bus asks of it is there. -/
namespace NesConsole

theorem Bank.exists_place {n bankSize offset : Nat} (hn : 0 < n) (hoffset : offset < bankSize)
    (bank : Nat) : ∃ i, Bank.place? (n * bankSize) bank bankSize offset = some i ∧
      i < n * bankSize := by
  have hcount : Bank.count (n * bankSize) bankSize = n := by
    rw [Bank.count, Nat.mul_div_cancel _ (by omega)]
    omega
  have hbank : bank % n + 1 ≤ n := Nat.mod_lt _ hn
  refine ⟨bank % n * bankSize + offset, ?_, ?_⟩
  · rw [Bank.place?, Bank.count?, if_neg (by omega), hcount]
    rfl
  · calc bank % n * bankSize + offset < bank % n * bankSize + bankSize := by omega
      _ = (bank % n + 1) * bankSize := (Nat.succ_mul _ _).symm
      _ ≤ n * bankSize := Nat.mul_le_mul_right _ hbank

/-- Program and pattern memory of whole banks, one at least, and fewer than five bits under way. -/
structure Board.Whole (b : Board) : Prop where
  program : ∃ k, b.program.size = (k + 1) * 0x4000
  patterns : ∃ k, b.patterns.bytes.size = (k + 1) * 0x2000
  pending : ∀ m, b.mapper = .mmc1 m → m.pending.length < 5

theorem Mmc1.pending_write (m : Mmc1) (address : UInt16) (data : UInt8)
    (h : m.pending.length < 5) : (m.write address data).pending.length < 5 := by
  unfold write
  split
  · exact Nat.zero_lt_succ 4
  case isFalse hbit =>
    dsimp only
    split
    case isTrue =>
      rw [commit_pending]
      exact Nat.zero_lt_succ 4
    case isFalse hcompletes =>
      have hne : m.pending.length ≠ 4 := by
        intro he
        simp [completes, he, hbit] at hcompletes
      rw [List.length_append, List.length_singleton]
      omega

namespace Board
variable {b : Board}

theorem Whole.exists_read (h : b.Whole) (address : UInt16) :
    ∃ byte, b.read? address = some byte := by
  obtain ⟨k, hsize⟩ := h.program
  have hbanked (bank : Nat) : ∃ byte,
      b.program.banked? bank 0x4000 (address.toNat % 0x4000) = some byte := by
    obtain ⟨i, hplace, hi⟩ := Bank.exists_place k.succ_pos
      (Nat.mod_lt address.toNat (show 0 < 0x4000 by decide)) bank
    rw [← hsize] at hplace hi
    exact ⟨b.program.bytes[i], by rw [Rom.banked?, hplace]; exact Array.getElem?_eq_getElem hi⟩
  unfold read?
  split
  · have hlt : address.toNat % (if 0x4000 < b.program.size then 0x8000 else 0x4000) <
        b.program.size := by
      split
      case isTrue hlarge =>
        have := Nat.mod_lt address.toNat (show 0 < 0x8000 by decide)
        omega
      case isFalse =>
        have := Nat.mod_lt address.toNat (show 0 < 0x4000 by decide)
        omega
    exact ⟨_, Array.getElem?_eq_getElem hlt⟩
  · exact hbanked _
  · exact hbanked _

theorem Whole.exists_patternPlace (h : b.Whole) (address : UInt16) :
    ∃ i, Bank.place? b.patterns.bytes.size (b.patternPlace address).1
      (b.patternPlace address).2.1 (b.patternPlace address).2.2 = some i ∧
        i < b.patterns.bytes.size := by
  obtain ⟨k, hsize⟩ := h.patterns
  have hhalves : b.patterns.bytes.size = (k + 1) * 2 * 0x1000 :=
    hsize.trans (Nat.mul_assoc (k + 1) 2 0x1000).symm
  unfold patternPlace
  split
  case h_1 m _ =>
    have hoffset := Nat.mod_lt address.toNat (show 0 < 0x1000 by decide)
    rw [hhalves]
    exact Bank.exists_place (Nat.succ_pos _) hoffset _
  case h_2 =>
    have hoffset := Nat.mod_lt address.toNat (show 0 < 0x2000 by decide)
    rw [hsize]
    exact Bank.exists_place k.succ_pos hoffset _

theorem Whole.exists_readPattern (h : b.Whole) (address : UInt16) :
    ∃ byte, b.readPattern? address = some byte := by
  obtain ⟨i, hplace, hi⟩ := h.exists_patternPlace address
  refine ⟨b.patterns.bytes[i], ?_⟩
  unfold readPattern? PatternMemory.read?
  dsimp only
  rw [hplace]
  exact Array.getElem?_eq_getElem hi

theorem Whole.exists_writePattern (h : b.Whole) (address : UInt16) (data : UInt8) :
    ∃ b', b.writePattern? address data = some b' ∧ b'.Whole := by
  obtain ⟨i, hplace, hi⟩ := h.exists_patternPlace address
  unfold writePattern? PatternMemory.write?
  dsimp only
  split
  case isTrue =>
    rw [hplace]
    dsimp only
    rw [dif_pos hi]
    refine ⟨_, rfl, h.program, ?_, h.pending⟩
    obtain ⟨k, hsize⟩ := h.patterns
    exact ⟨k, by simpa using hsize⟩
  case isFalse => exact ⟨b, rfl, h⟩

theorem Whole.write (h : b.Whole) (address : UInt16) (data : UInt8) :
    (b.write address data).Whole := by
  unfold Board.write
  split
  case h_1 => exact h
  case h_2 m hm =>
    refine ⟨h.program, h.patterns, fun m' hm' => ?_⟩
    cases hm'
    exact m.pending_write address data (h.pending m hm)
  case h_3 => exact ⟨h.program, h.patterns, nofun⟩

end Board

theorem PatternMemory.size_ofRom (rom : Array UInt8) {k : Nat} (h : rom.size = k * 0x2000) :
    ∃ k, (ofRom rom).bytes.size = (k + 1) * 0x2000 := by
  unfold ofRom
  cases k with
  | zero =>
    refine ⟨0, ?_⟩
    have hempty : rom.isEmpty = true := by simpa using h
    rw [hempty]
    simp [ramSize]
  | succ k =>
    refine ⟨k, ?_⟩
    have hne : rom.isEmpty = false := by
      rw [Array.isEmpty_eq_false_iff]
      intro he
      rw [he] at h
      simp at h
    rw [hne]
    exact h

theorem Mapper.pending_ofNumber? {n : Nat} {m : Mmc1} (h : ofNumber? n = some (.mmc1 m)) :
    m.pending.length < 5 := by
  unfold ofNumber? at h
  split at h <;> cases h
  exact Nat.zero_lt_succ 4

namespace Cartridge

theorem whole_boardOf {header : Header} {image : Array UInt8} {b : Board}
    (h : boardOf header image = .ok b) : b.Whole := by
  unfold boardOf at h
  dsimp only at h
  split at h
  case isTrue => cases h
  case isFalse =>
  split at h
  case isTrue => cases h
  case isFalse hbanks =>
  split at h
  case isTrue => cases h
  case isFalse hprogram =>
  split at h
  case isTrue => cases h
  case isFalse hend =>
  split at h
  case h_1 => cases h
  case h_2 mapper hmapper =>
    cases h
    refine ⟨⟨header.programBanks - 1, ?_⟩, ?_, fun m hm => ?_⟩
    · have hlength : header.programBanks - 1 + 1 = header.programBanks := by omega
      have hsize : min header.patternStart image.size - header.programStart =
          header.programBanks * 0x4000 := by
        rw [Nat.min_eq_left (by omega), Header.patternStart, Nat.add_sub_cancel_left,
          Header.programLength]
      rw [hlength]
      simpa [Rom.size] using hsize
    · have hsize : min header.imageEnd image.size - header.patternStart =
          header.patternBanks * 0x2000 := by
        rw [Nat.min_eq_left (by omega), Header.imageEnd, Nat.add_sub_cancel_left,
          Header.patternLength]
      exact PatternMemory.size_ofRom _ (by simpa using hsize)
    · have hm : mapper = .mmc1 m := hm
      exact Mapper.pending_ofNumber? (hm ▸ hmapper)

/-- An accepted image gives whole memories. -/
theorem whole_ofImage {image : Array UInt8} {path : Option String} {d : Disk} {c : Cartridge}
    {events : List CartridgeEvent} (h : ofImage image path d = .ok (c, events)) :
    c.board.Whole := by
  unfold ofImage at h
  cases hheader : Header.parse image with
  | error e =>
    rw [hheader] at h
    cases h
  | ok header =>
    cases hboard : boardOf header image with
    | error e =>
      simp only [hheader, hboard, bind, Except.bind] at h
      cases h
    | ok b =>
      simp only [hheader, hboard, bind, Except.bind] at h
      cases h
      exact whole_boardOf hboard

theorem exists_writePattern {c : Cartridge} (h : c.board.Whole) (address : UInt16)
    (data : UInt8) : ∃ b, c.board.writePattern? (address % 0x2000) data = some b ∧ b.Whole ∧
      c.writePattern? address data = some { c with board := b } := by
  obtain ⟨b, hb, hwhole⟩ := h.exists_writePattern (address % 0x2000) data
  exact ⟨b, hb, hwhole, by rw [writePattern?, hb]; rfl⟩

end Cartridge

/-! ### The buses -/

namespace VideoBus
variable {v : VideoBus}

theorem steady_of_whole (h : v.cartridge.board.Whole) : Steady v.byteAt (· = v) :=
  v.steady fun address =>
    Option.isSome_iff_exists.2 (h.exists_readPattern (address % 0x2000))

theorem exists_write (h : v.cartridge.board.Whole) (address : UInt16) (data : UInt8) :
    ∃ v', v.write address data = .ok () v' ∧ v'.cartridge.board.Whole := by
  have hlt : (address % 0x4000).toNat < 0x4000 := by
    rw [UInt16.toNat_mod]
    exact Nat.mod_lt _ (by decide)
  obtain ⟨device, hdevice⟩ := videoMap_owner _ hlt
  unfold VideoBus.write
  dsimp only
  rw [hdevice]
  cases device with
  | patterns =>
    obtain ⟨b, -, hwhole, hpattern⟩ := Cartridge.exists_writePattern h (address % 0x4000) data
    dsimp only
    rw [hpattern]
    exact ⟨_, rfl, hwhole⟩
  | nameTables | nameTablesAgain | palette => exact ⟨_, rfl, h⟩

end VideoBus

namespace Ppu
variable {p : Ppu} {v : VideoBus}

theorem exists_readRegister (h : v.cartridge.board.Whole) (address : UInt16) :
    ∃ byte p', readRegister address ⟨p, v⟩ = .ok byte ⟨p', v⟩ := by
  have hsteady := VideoBus.steady_of_whole h
  have hdoes : ∃ byte p', Does (· = v) (readRegister address) p byte p' := by
    unfold readRegister
    split
    · exact ⟨_, _, .bind (.look _) (.bind (.update _) .pure)⟩
    · exact ⟨_, _, .look _⟩
    · by_cases hpalette : 0x3F00 ≤ p.v.busAddress
      · exact ⟨_, _, .bind (.look _) (.pos hpalette (.bind (.read (hsteady _)) (.bind (.update _)
          (.bind (.read (hsteady _)) (.bind (.update _) .pure)))))⟩
      · exact ⟨_, _, .bind (.look _) (.neg hpalette (.bind (.read (hsteady _)) (.bind (.look _)
          (.bind (.update _) .pure))))⟩
    · exact ⟨_, _, .look _⟩
  obtain ⟨byte, p', hread⟩ := hdoes
  obtain ⟨_, hok, rfl⟩ := hread v rfl
  exact ⟨byte, p', hok⟩

section
variable {address : UInt16}

/-- The data register writes through to the bus. -/
theorem writeRegister_data {v' : VideoBus} {data : UInt8} (hregister : address.toNat % 8 = 7)
    (hwrite : v.write p.v.busAddress data = .ok () v') :
    ∃ p', writeRegister address data ⟨p, v⟩ = .ok () ⟨p', v'⟩ := by
  have hput : Wired.write p.v.busAddress data ⟨{ p with latch := data }, v⟩ =
      .ok () ⟨{ p with latch := data }, v'⟩ := by
    dsimp only [Wired.write, Wired.onBus, Bus.write]
    rw [hwrite]
  unfold writeRegister
  rw [hregister]
  exact ⟨_, (bind_ok hput).trans rfl⟩

/-- The other registers leave what lies behind the bus. -/
theorem writeRegister_other (p : Ppu) (v : VideoBus) (hregister : address.toNat % 8 ≠ 7)
    (data : UInt8) : ∃ p', writeRegister address data ⟨p, v⟩ = .ok () ⟨p', v⟩ := by
  have hlt : address.toNat % 8 < 8 := Nat.mod_lt _ (by decide)
  unfold writeRegister
  generalize address.toNat % 8 = register at hregister hlt
  match register with
  | 0 | 1 | 2 | 3 | 4 | 5 | 6 => exact ⟨_, rfl⟩
  | n + 7 => omega

end

theorem exists_writeRegister (h : v.cartridge.board.Whole) (address : UInt16) (data : UInt8) :
    ∃ p' v', writeRegister address data ⟨p, v⟩ = .ok () ⟨p', v'⟩ ∧ v'.cartridge.board.Whole := by
  by_cases hregister : address.toNat % 8 = 7
  · obtain ⟨v', hwrite, h'⟩ := VideoBus.exists_write h p.v.busAddress data
    obtain ⟨p', hrun⟩ := writeRegister_data hregister hwrite
    exact ⟨p', v', hrun, h'⟩
  · obtain ⟨p', hrun⟩ := writeRegister_other p v hregister data
    exact ⟨p', v, hrun, h⟩

/-- No dot is refused, and what lies behind the bus stays. -/
theorem exists_step (h : v.cartridge.board.Whole) (p : Ppu) :
    ∃ p', step ⟨p, v⟩ = .ok p.tick ⟨p', v⟩ := by
  obtain ⟨v', hstep, rfl⟩ := does_step (VideoBus.steady_of_whole h) p v rfl
  exact ⟨_, hstep⟩

end Ppu

theorem Cartridge.exists_read {c : Cartridge} (h : c.board.Whole) (address : UInt16) :
    ∃ byte, c.read? address = some byte := by
  unfold read?
  split
  · exact h.exists_read address
  · split
    · split <;> exact ⟨_, rfl⟩
    · exact ⟨_, rfl⟩

theorem Cartridge.whole_write {c : Cartridge} (h : c.board.Whole) (address : UInt16)
    (data : UInt8) : (c.write address data).board.Whole := by
  unfold write
  split
  · exact h.write address data
  · split
    · split <;> exact h
    · exact h

namespace MainBus

def Whole (b : MainBus) : Prop := b.video.cartridge.board.Whole

theorem owner?_eq_none (address : UInt16) : mainMap.owner? address = none ↔
    0x4018 ≤ address.toNat ∧ address.toNat < 0x4020 := by
  have hlt := address.toNat_lt
  simp only [AddressMap.owner?, Option.map_eq_none_iff, List.find?_eq_none]
  simp [mainMap, Window.holds, UInt16.le_iff_toNat_le]
  omega

theorem exists_read {b : MainBus} (h : b.Whole) {address : UInt16}
    (howner : mainMap.owner? address ≠ none) :
    ∃ byte b', MainBus.read address b = .ok byte b' ∧ b'.Whole := by
  unfold MainBus.read
  cases hdevice : mainMap.owner? address with
  | none => exact absurd hdevice howner
  | some device =>
    cases device with
    | ram | ramAgain | peripherals => exact ⟨_, _, rfl, h⟩
    | picture =>
      obtain ⟨byte, p', hread⟩ := Ppu.exists_readRegister (p := b.picture) h address
      simp only [onPicture, hread]
      exact ⟨_, _, rfl, h⟩
    | cartridge =>
      obtain ⟨byte, hbyte⟩ := Cartridge.exists_read h address
      simp only [hbyte]
      exact ⟨_, _, rfl, h⟩

theorem read_unowned {b : MainBus} {address : UInt16} (howner : mainMap.owner? address = none) :
    MainBus.read address b = .error (.unmapped address) b := by
  rw [MainBus.read, howner]

theorem leads_read (address : UInt16) : Leads Whole (MainBus.read address) (fun _ => Whole)
    (fun e b => e = .unmapped address ∧ b.Whole) := by
  intro b h
  by_cases howner : mainMap.owner? address = none
  · rw [read_unowned howner]
    exact ⟨rfl, h⟩
  · obtain ⟨byte, b', hread, h'⟩ := exists_read h howner
    rw [hread]
    exact h'

/-- A read leaves what lies behind the picture unit, and the cartridge. -/
theorem keeps_video {v : VideoBus} (h : v.cartridge.board.Whole) (address : UInt16) :
    Keeps (fun b => b.video = v) (MainBus.read address) := by
  rintro b rfl
  unfold MainBus.read
  cases mainMap.owner? address with
  | none => rfl
  | some device =>
    cases device with
    | ram | ramAgain | peripherals => rfl
    | picture =>
      obtain ⟨byte, p', hread⟩ := Ppu.exists_readRegister (p := b.picture) h address
      simp only [onPicture, hread]
    | cartridge =>
      obtain ⟨byte, hbyte⟩ := Cartridge.exists_read h address
      simp only [hbyte]

theorem leads_write (address : UInt16) (data : UInt8) :
    Leads Whole (MainBus.write address data) (fun _ => Whole)
      (fun e b => e = .unmapped address ∧ b.Whole) := by
  intro b h
  unfold MainBus.write
  cases mainMap.owner? address with
  | none => exact ⟨rfl, h⟩
  | some device =>
    cases device with
    | ram | ramAgain | peripherals => exact h
    | picture =>
      obtain ⟨p', v', hwrite, h'⟩ := Ppu.exists_writeRegister (p := b.picture) h address data
      simp only [onPicture, hwrite]
      exact h'
    | cartridge => exact Cartridge.whole_write h address data

theorem exists_stepDot {b : MainBus} (h : b.Whole) :
    ∃ p', stepDot b = .ok b.picture.tick { b with picture := p' } := by
  obtain ⟨p', hstep⟩ := Ppu.exists_step h b.picture
  exact ⟨p', by simp only [stepDot, onPicture, hstep]⟩

/-! What a read leads to, a block of reads and a transfer lead to. -/

section
variable {P : MainBus → Prop} {E : BusError → MainBus → Prop}

theorem leads_block (h : ∀ address, Leads P (MainBus.read address) (fun _ => P) E) (n : Nat)
    (address : UInt16) : Leads P (readBlock address n) (fun _ => P) E := by
  induction n generalizing address with
  | zero => exact .pure fun _ hb => hb
  | succ n ih => exact .bind (h address) fun _ => .bind (ih _) fun _ => .pure fun _ hb => hb

theorem leads_transfer (h : ∀ address, Leads P (MainBus.read address) (fun _ => P) E)
    (hnote : ∀ es b, P b → P (note es b)) (hpicture : ∀ b p, P b → P { b with picture := p })
    (page : UInt8) : Leads P (transferObjects page) (fun _ => P) E := by
  have hblock := leads_block h 256 (wordOf 0 page)
  unfold transferObjects
  refine .bind (M := fun _ => P) (fun b hb => hnote _ b hb) fun _ => .bind hblock fun _ => ?_
  exact fun b hb => hpicture b _ hb

end

end MainBus
end NesConsole
