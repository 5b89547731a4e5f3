import NesConsole.Proofs.Cartridge.Acceptance
import NesConsole.Proofs.Faults.Finality
import NesConsole.Proofs.Saves.WorkRam

/-! Saves across sessions. Where nothing stands in the way of its file, battery RAM that is dropped
and restored is as it was, through whatever was written and persisted before; and what has no file,
or was not written, leaves the disk alone. -/
namespace NesConsole

/-! ### Disks that take every save -/

def Disk.Free (l : Location) (d : Disk) : Prop :=
  d.get? l = none ∨ ∃ bytes, d.get? l = some (.file bytes)

theorem Disk.Free.not_directory {l : Location} {d : Disk} (h : d.Free l) :
    d.get? l ≠ some .directory := by
  rcases h with hnone | ⟨bytes, hfile⟩
  · rw [hnone]
    nofun
  · rw [hfile]
    nofun

/-- Nothing keeps saves of an image from their file: there is a place for the temporary, neither
name is a directory, and nothing goes wrong. -/
structure Savable (image : String) (d : Disk) : Prop where
  temporary : ∃ l, d.locate (savePath image ++ ".tmp") = .ok l ∧ d.Free l
  save : ∀ l, d.locate (savePath image) = .ok l → d.get? l ≠ some .directory
  mishaps : ∀ mishap ∈ d.mishaps, mishap = none

namespace Savable
variable {image : String} {d : Disk} {bytes : Array UInt8}

theorem of_places {temporary save : Location} (h : Beside image d temporary save)
    (hfree : d.Free temporary) (hsave : d.get? save ≠ some .directory)
    (hmishaps : ∀ mishap ∈ d.mishaps, mishap = none) : Savable image d where
  temporary := ⟨temporary, h.temporaryAt, hfree⟩
  save l hl := by
    obtain rfl : save = l := Except.ok.inj (h.saveAt.symm.trans hl)
    exact hsave
  mishaps := hmishaps

theorem nextMishap (h : Savable image d) : d.mishaps.head?.join = none := by
  cases hlist : d.mishaps with
  | nil => rfl
  | cons mishap rest => exact h.mishaps mishap (hlist ▸ List.mem_cons_self)

theorem spent (h : Savable image d) : Savable image d.spent := by
  obtain ⟨l, hlocate, hfree⟩ := h.temporary
  obtain ⟨save, hbeside⟩ := Beside.of_locate hlocate
  have hget := Disk.get?_of_nodes d.nodes_spent
  refine of_places (hbeside.uphold (Disk.upholds_of_nodes d.nodes_spent)) ?_ ?_ fun mishap hmem =>
    h.mishaps mishap (List.mem_of_mem_tail hmem)
  · unfold Disk.Free
    rw [hget]
    exact hfree
  · rw [hget]
    exact h.save save hbeside.saveAt

theorem exists_write (h : Savable image d) (bytes : Array UInt8) :
    ∃ d', Disk.write (savePath image ++ ".tmp") bytes d = .ok () d' ∧
      BatteryRam.Ready image bytes d' ∧ Savable image d' := by
  have hmishap := h.nextMishap
  have hspent := h.spent
  rw [Disk.write, bind_ok (Disk.nextMishap_eq d), bind_ok (Disk.get_eq _), hmishap]
  generalize d.spent = d₁ at hspent ⊢
  obtain ⟨l, hlocate, hfree⟩ := hspent.temporary
  obtain ⟨save, hbeside⟩ := Beside.of_locate hlocate
  have hnode := hfree.not_directory
  have hput : Savable image (d₁.put l (.file bytes)) := by
    refine of_places (hbeside.uphold (Disk.upholds_put hbeside.temporaryIsFree hnode _)) (.inr ?_)
      ?_ hspent.mishaps
    · exact ⟨bytes, by rw [Disk.get?_put hbeside.temporaryIsFree, if_pos rfl]⟩
    · rw [Disk.get?_put hbeside.temporaryIsFree, if_neg hbeside.apart]
      exact hspent.save save hbeside.saveAt
  refine ⟨_, ?_, BatteryRam.ready_of_puts ⟨l, hlocate, hnode, rfl⟩, hput⟩
  rw [hlocate]
  rcases hfree with hnone | ⟨old, hfile⟩
  · dsimp only
    rw [hnone]
    rfl
  · dsimp only
    rw [hfile]
    rfl

theorem exists_rename (h : Savable image d) (hready : BatteryRam.Ready image bytes d) :
    ∃ d', Disk.rename (savePath image ++ ".tmp") (savePath image) d = .ok () d' ∧
      Savable image d' := by
  have hmishap := h.nextMishap
  have hspent := h.spent
  obtain ⟨temporary, save, hbeside, hfile⟩ := hready
  have hbeside := hbeside.uphold (Disk.upholds_of_nodes d.nodes_spent)
  rw [← Disk.get?_of_nodes d.nodes_spent] at hfile
  rw [Disk.rename, bind_ok (Disk.nextMishap_eq d), hmishap]
  dsimp only
  rw [bind_ok (Disk.get_eq _)]
  generalize d.spent = d₁ at hspent hbeside hfile ⊢
  have hnode : d₁.get? temporary ≠ some .directory := by
    rw [hfile]
    rintro ⟨⟩
  have hsave := hspent.save save hbeside.saveAt
  have herased := Disk.get?_erase (d := d₁) hbeside.temporaryIsFree
  have herased' : (d₁.erase temporary).get? save ≠ some .directory := by
    rw [herased, if_neg hbeside.apart]
    exact hsave
  refine ⟨(d₁.erase temporary).put save (.file bytes), ?_, ?_⟩
  · rw [hbeside.temporaryAt, hbeside.saveAt]
    dsimp only
    rw [hfile]
    dsimp only
    rw [if_neg hsave]
    rfl
  · refine of_places ((hbeside.uphold (Disk.upholds_erase hbeside.temporaryIsFree hnode)).uphold
      (Disk.upholds_put hbeside.saveIsFree herased' _)) (.inl ?_) ?_ hspent.mishaps
    · rw [Disk.get?_put hbeside.saveIsFree, if_neg hbeside.apart.symm, herased, if_pos rfl]
    · rw [Disk.get?_put hbeside.saveIsFree, if_pos rfl]
      rintro ⟨⟩

end Savable

namespace BatteryRam
variable {size : Nat} {b : BatteryRam size} {image : String} {d : Disk}

/-- On such a disk no persist is refused. -/
theorem exists_persist (hpath : b.path = savePath image) (h : Savable image d) :
    ∃ d', b.persist d = .ok { b with dirty := false } d' ∧ Savable image d' := by
  cases hdirty : b.dirty with
  | false =>
    obtain ⟨ram, path, dirty⟩ := b
    cases hdirty
    exact ⟨d, rfl, h⟩
  | true =>
    obtain ⟨d₁, hwrite, hready, h₁⟩ := h.exists_write b.ram.cells.toArray
    obtain ⟨d₂, hrename, h₂⟩ := h₁.exists_rename hready
    refine ⟨d₂, ?_, h₂⟩
    rw [persist_of_dirty hdirty]
    unfold attempt temporaryPath
    rw [hpath, bind_ok hwrite, bind_ok hrename]
    rfl

theorem clean_restore (blank : Ram size) (image : String) (d : Disk) :
    (restore blank image d).1.dirty = false :=
  Bool.eq_false_iff.2 fun hdirty => (kept_restore blank image d).owed.1 hdirty

/-- RAM is restored from its bytes. -/
theorem ram_restore_of_read (blank ram : Ram size)
    (h : d.read (savePath image) = .ok ram.cells.toArray) :
    (restore blank image d).1.ram = ram := by
  unfold restore
  dsimp only
  rw [h]
  dsimp only
  rw [dif_pos ram.cells.size_toArray]

end BatteryRam

namespace SaveAct
variable {size : Nat} {image : String}

theorem savable_afterAll {start : BatteryRam size × Disk} (hstart : Kept image start [] start)
    (h : Savable image start.2) (past : List SaveAct) : Savable image (afterAll start past).2 := by
  induction past with
  | nil => exact h
  | cons act past ih =>
    have hpath := (kept_afterAll hstart past).path
    rw [afterAll]
    generalize afterAll start past = s at hpath ih
    obtain ⟨b, d⟩ := s
    cases act with
    | write offset data => exact ih
    | persist =>
      obtain ⟨d', hpersist, h'⟩ := BatteryRam.exists_persist hpath ih
      rw [run, hpersist]
      exact h'

end SaveAct

namespace BatteryRam
variable {size : Nat} {image : String}
open SaveAct

/-- RAM that is dropped, after whatever was written and persisted, is restored as it was. -/
theorem restore_close (blank : Ram size) {d₀ : Disk} (h : Savable image d₀) (past : List SaveAct) :
    let s := afterAll ((restore blank image d₀).1, d₀) past
    (restore blank image (s.1.close s.2).1).1.ram = s.1.ram := by
  intro s
  have hstart := kept_restore blank image d₀
  have hkept : Kept image _ past s := kept_afterAll hstart past
  have hsavable : Savable image s.2 := savable_afterAll hstart h past
  obtain ⟨d', hpersist, -⟩ := exists_persist hkept.path hsavable
  have hcases := (leads_persist hkept.path s.2).of_ok rfl hpersist
  rw [fst_close, stateAfter, hpersist]
  dsimp only
  cases hdirty : s.1.dirty with
  | true =>
    rw [hdirty, if_pos rfl] at hcases
    exact ram_restore_of_read blank s.1.ram hcases.2
  | false =>
    -- RAM that is in step was saved when it was last written, or never written at all.
    rw [hdirty, if_neg Bool.false_ne_true] at hcases
    rw [hcases.2]
    by_cases hwrote : Wrote past
    · exact ram_restore_of_read blank s.1.ram (hkept.inStep hdirty hwrote)
    · have hsame : s = _ := afterAll_of_not_wrote (clean_restore blank image d₀) hwrote
      rw [hsame]

end BatteryRam

/-! ### The cartridge -/

namespace Image
open Cartridge (blankWorkRam)
variable (b : Array UInt8) (d : Disk)

theorem workRamSize_board :
    (board b).workRamSize = if (header b).mapper = 2 then 0 else 0x2000 := by
  have hmapper : (header b).mapper = mapperNumber b := rfl
  rw [hmapper]
  unfold board Board.workRamSize
  dsimp only
  match mapperNumber b with
  | 0 | 1 | 2 => rfl
  | n + 3 => simp [Mapper.ofNumber?]

/-- A battery and a path make battery RAM, except on boards without work RAM. -/
theorem cartridge_battery (hbattery : (header b).battery = true) (hmapper : (header b).mapper ≤ 1)
    (rom : String) : (cartridge b (some rom) d).1 =
      ⟨header b, board b, .battery (BatteryRam.restore blankWorkRam rom d).1, some rom⟩ := by
  have hsize : (board b).workRamSize ≠ 0 := by
    rw [workRamSize_board, if_neg (by omega)]
    decide
  unfold cartridge Cartridge.workRamOf
  rw [if_neg hsize, hbattery]

theorem work_without {path : Option String} (h : (header b).battery = false ∨ path = none ∨
    (header b).mapper = 2) (ram : BatteryRam 0x2000) :
    (cartridge b path d).1.work ≠ .battery ram := by
  unfold cartridge Cartridge.workRamOf
  by_cases hmapper : (header b).mapper = 2
  · rw [workRamSize_board, if_pos hmapper, if_pos rfl]
    nofun
  · rw [workRamSize_board, if_neg hmapper, if_neg (by decide)]
    cases hbattery : (header b).battery with
    | false => nofun
    | true =>
      cases path with
      | none => nofun
      | some rom => simp [hbattery, hmapper] at h

end Image

theorem Cartridge.read?_battery {c : Cartridge} {b : BatteryRam 0x2000} (h : c.work = .battery b)
    {address : UInt16} (hlow : 0x6000 ≤ address) (hhigh : address < 0x8000) :
    c.read? address = some (b.ram.read (address - 0x6000).toNat) := by
  unfold read?
  rw [if_neg (UInt16.not_le.2 hhigh), if_pos hlow, h]
  rfl

theorem Console.close_battery {c : Console} {b : BatteryRam 0x2000}
    (h : c.cartridge.work = .battery b) (d : Disk) : (c.close d).2 = (b.close d).1 := by
  unfold close Cartridge.close
  rw [h]

theorem Console.close_without {c : Console} (h : ∀ b, c.cartridge.work ≠ .battery b) (d : Disk) :
    (c.close d).2 = d := by
  unfold close Cartridge.close
  cases hwork : c.cartridge.work with
  | battery b => exact absurd hwork (h b)
  | absent | volatile => rfl

theorem Cartridge.clean_ofImage {image : Array UInt8} {path : Option String} {d : Disk}
    {c : Cartridge} {events : List CartridgeEvent} (h : ofImage image path d = .ok (c, events))
    {b : BatteryRam 0x2000} (hwork : c.work = .battery b) : b.dirty = false := by
  obtain rfl : c = (Image.cartridge image path d).1 :=
    congrArg Prod.fst (Image.wellFormed_of_ofImage h).2
  change (workRamOf (Image.header image) (Image.board image) path d).1 = .battery b at hwork
  unfold workRamOf at hwork
  split at hwork
  · cases hwork
  · split at hwork
    · cases hwork
      exact BatteryRam.clean_restore ..
    · cases hwork
    · cases hwork

section
variable {image : Array UInt8} {path : Option String} {d : Disk} {cartridge : Cartridge}
  {events : List CartridgeEvent}

/-- A session leaves the disk alone if there is no battery, or no step writes the work RAM. -/
theorem disk_sessionEnd (himage : Cartridge.ofImage image path d = .ok (cartridge, events))
    (journal : Journal) {rs : List SessionCall} (h : (∀ b, cartridge.work ≠ .battery b) ∨
      ¬Console.WritesWork (sessionStarts rs (.wire cartridge journal, d))) :
    let s := sessionEnd rs (.wire cartridge journal, d)
    s.2 = d ∧ (s.1.close s.2).2 = d := by
  intro s
  have hwork := worked_image himage journal rs d
  cases hkind : cartridge.work with
  | absent | volatile =>
    have hnone : ∀ b, cartridge.work ≠ .battery b := fun b hb => by
      rw [hkind] at hb
      cases hb
    obtain ⟨hdisk, hnone⟩ := SaveAct.worked_without hnone d
      (sessionActs rs (.wire cartridge journal, d))
    rw [← hwork] at hdisk hnone
    exact ⟨hdisk, (Console.close_without hnone _).trans hdisk⟩
  | battery b =>
    have hclean := Cartridge.clean_ofImage himage hkind
    have hwrote : ¬SaveAct.Wrote (sessionActs rs (.wire cartridge journal, d)) := fun hwrote =>
      (h.resolve_left fun hnone => hnone b hkind) (writesWork_of_wrote hwrote)
    rw [hkind, SaveAct.worked_battery, SaveAct.afterAll_of_not_wrote hclean hwrote] at hwork
    obtain ⟨hram, hdisk⟩ := Prod.mk.inj hwork
    refine ⟨hdisk, ?_⟩
    rw [Console.close_battery hram, BatteryRam.fst_close, stateAfter,
      BatteryRam.persist_of_clean hclean]
    exact hdisk

/-- Battery saves survive a session. Around an accepted image with a battery and work RAM, on a disk
that takes saves, whatever a host does before the console goes, the image comes back with the work
RAM of that moment. Without battery, path or work RAM, or if no step of the session writes the work
RAM, no file is touched, at any moment at which the console may go. -/
theorem saves_survive (himage : Cartridge.ofImage image path d = .ok (cartridge, events))
    (journal : Journal) (rs : List SessionCall) :
    let start : Console × Disk := (.wire cartridge journal, d)
    (∀ rom, path = some rom → cartridge.header.battery = true → cartridge.header.mapper ≤ 1 →
      Savable rom d →
        let s := sessionEnd rs start
        ∃ again reports, Cartridge.ofImage image path (s.1.close s.2).2 = .ok (again, reports) ∧
          ∀ address, 0x6000 ≤ address → address < 0x8000 →
            again.read? address = s.1.cartridge.read? address) ∧
    (cartridge.header.battery = false ∨ path = none ∨ cartridge.header.mapper = 2 ∨
        ¬Console.WritesWork (sessionStarts rs start) →
      ∀ before, before <+: rs →
        let s := sessionEnd before start
        s.2 = d ∧ (s.1.close s.2).2 = d) := by
  intro start
  obtain ⟨hwell, hcartridge⟩ := Image.wellFormed_of_ofImage himage
  have hsame : cartridge = (Image.cartridge image path d).1 := congrArg Prod.fst hcartridge
  have hheader : cartridge.header = Image.header image := congrArg Cartridge.header hsame
  rw [hheader]
  refine ⟨?_, ?_⟩
  · rintro rom rfl hbattery hmapper hsavable s
    have hloaded (disk : Disk) : (Image.cartridge image (some rom) disk).1.work =
        .battery (BatteryRam.restore Cartridge.blankWorkRam rom disk).1 := by
      rw [Image.cartridge_battery image disk hbattery hmapper]
    have hwork := worked_image himage journal rs d
    rw [show cartridge.work = _ from hsame ▸ hloaded d, SaveAct.worked_battery] at hwork
    obtain ⟨hram, hdisk⟩ := Prod.mk.inj hwork
    refine ⟨_, _, hwell.ofImage_eq (some rom) _, fun address hlow hhigh => ?_⟩
    rw [Cartridge.read?_battery (hloaded _) hlow hhigh, Cartridge.read?_battery hram hlow hhigh,
      Console.close_battery hram, hdisk, BatteryRam.restore_close Cartridge.blankWorkRam hsavable]
  · rintro h before ⟨rest, rfl⟩
    refine disk_sessionEnd himage journal ?_
    rw [hsame]
    rcases h with hbattery | hpath | hmapper | hquiet
    · exact .inl (Image.work_without image d (.inl hbattery))
    · exact .inl (Image.work_without image d (.inr (.inl hpath)))
    · exact .inl (Image.work_without image d (.inr (.inr hmapper)))
    · rw [← hsame]
      refine .inr fun ⟨c, hc, hwrite⟩ => hquiet ⟨c, ?_, hwrite⟩
      rw [sessionStarts_append]
      exact List.mem_append_left _ hc

end

/-- An image without patterns, whose program is all that follows its header. -/
theorem Image.board_append {head program : Array UInt8} (hhead : head.size = 16)
    (htrainer : hasTrainer head = false) (hprogram : program.size = 0x4000 * programBanks head)
    (hpatterns : patternBanks head = 0) : board (head ++ program) =
      ⟨⟨program⟩, .ofRom #[], (Mapper.ofNumber? (mapperNumber head)).getD .nrom⟩ := by
  have hheader := header_append hhead program
  obtain ⟨hstart, hmiddle, hend⟩ := bounds_congr hheader
  have hfirst : programStart head = 16 := by
    unfold programStart
    rw [htrainer]
    rfl
  have hsize : (head ++ program).size = programEnd head := by
    rw [Array.size_append, hhead, hprogram, programEnd, hfirst]
  have hlast : patternEnd head = programEnd head := by rw [patternEnd, hpatterns]; rfl
  have hsection : (head ++ program).extract 16 (programEnd head) = program := by
    rw [← hsize, Array.extract_append]
    simp [hhead]
  have hempty : (head ++ program).extract (programEnd head) (programEnd head) = #[] :=
    Array.eq_empty_of_size_eq_zero (by rw [Array.size_extract]; omega)
  rw [board, hstart, hmiddle, hend, hlast, hfirst, hsection, hempty, (counts_congr hheader).2.2]

/-- A header with a battery, on a board that switches nothing. -/
def batteryHeader : Array UInt8 :=
  #[0x4E, 0x45, 0x53, 0x1A, 1, 0, 2, 0, 0, 0, 0, 0, 0, 0, 0, 0]

/-- A program that stores `$42` at `$6000`. -/
def savingProgram : Array UInt8 := bootProgram [0xA9, 0x42, 0x8D, 0x00, 0x60]

def staleDisk : Disk where
  nodes := [(["g.sav"], .file #[5])]

def savingCartridge : Cartridge where
  header := Image.header batteryHeader
  board := ⟨⟨savingProgram⟩, .ofRom #[], .nrom⟩
  work := .battery (BatteryRam.restore Cartridge.blankWorkRam "g" staleDisk).1
  path := some "g"

def savingHost (steps : Nat) : List SessionCall :=
  .call .reset :: List.replicate steps (.call .step)

theorem savable_staleDisk : Savable "g" staleDisk := by
  have htemporary : staleDisk.locate (savePath "g" ++ ".tmp") = .ok ["g.sav.tmp"] := rfl
  have hsave : staleDisk.locate (savePath "g") = .ok ["g.sav"] := rfl
  refine ⟨⟨_, htemporary, .inl (by decide +kernel)⟩, fun l hl => ?_, fun m hm => ?_⟩
  · obtain rfl : ["g.sav"] = l := Except.ok.inj (hsave.symm.trans hl)
    decide +kernel
  · exact absurd hm List.not_mem_nil

/-- The tenth step stores. Before it the disk stays as it is, and after it the byte is there when
the image is loaded again. -/
theorem saves_survive_stored : ∃ events,
    Cartridge.ofImage (batteryHeader ++ savingProgram) (some "g") staleDisk =
      .ok (savingCartridge, events) ∧
    (let s := sessionEnd (savingHost 9) (.wire savingCartridge {}, staleDisk)
     (s.1.close s.2).2 = staleDisk) ∧
    let s := sessionEnd (savingHost 10) (.wire savingCartridge {}, staleDisk)
    ∃ again reports, Cartridge.ofImage (batteryHeader ++ savingProgram) (some "g")
        (s.1.close s.2).2 = .ok (again, reports) ∧ again.read? 0x6000 = some 0x42 := by
  have hsize : savingProgram.size = 0x4000 := size_bootProgram (by decide)
  have hwell : Image.WellFormed (batteryHeader ++ savingProgram) :=
    .append rfl (by decide) (by decide) (by decide) (by rw [hsize]; decide)
  have hload := hwell.ofImage_eq (some "g") staleDisk
  have hboard : Image.board (batteryHeader ++ savingProgram) = _ :=
    Image.board_append rfl (by decide) hsize (by decide)
  have hheader : Image.header (batteryHeader ++ savingProgram) = Image.header batteryHeader :=
    Image.header_append rfl savingProgram
  have hcartridge : (Image.cartridge (batteryHeader ++ savingProgram) (some "g") staleDisk).1 =
      savingCartridge := by
    rw [Image.cartridge_battery _ staleDisk (by rw [hheader]; decide) (by rw [hheader]; decide),
      hboard, hheader]
    rfl
  rw [hcartridge] at hload
  have hquiet : ¬Console.WritesWork
      (sessionStarts (savingHost 9) (.wire savingCartridge {}, staleDisk)) := by decide +kernel
  have hstored : (sessionEnd (savingHost 10) (.wire savingCartridge {},
      staleDisk)).1.cartridge.read? 0x6000 = some 0x42 := by decide +kernel
  obtain ⟨-, hstill⟩ := saves_survive hload {} (savingHost 9)
  obtain ⟨hreload, -⟩ := saves_survive hload {} (savingHost 10)
  refine ⟨_, hload, (hstill (.inr (.inr (.inr hquiet))) _ (List.prefix_refl _)).2, ?_⟩
  obtain ⟨again, reports, hagain, hread⟩ :=
    hreload "g" rfl (by decide) (by decide) savable_staleDisk
  exact ⟨again, reports, hagain, (hread 0x6000 (by decide) (by decide)).trans hstored⟩

end NesConsole
