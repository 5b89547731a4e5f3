import NesConsole.Proofs.Faults.Transfers
import NesConsole.Proofs.Logging.QuietReads
import NesConsole.Proofs.Picture.StatusHistory

/-! What an object transfer leaves. A page that can be read whole is copied as if each of its bytes
was written to the data register of object memory in turn, and nothing else happens but its reads.
A page that is refused leaves object memory and its address as they are. -/
namespace NesConsole

/-! ### Object memory, byte by byte -/

namespace ObjectMemory

def byteAt (oam : ObjectMemory) (place : UInt8) : UInt8 := oam.get ⟨place.toNat, place.toNat_lt⟩

theorem ext_byteAt {oam oam' : ObjectMemory} (h : ∀ place, oam.byteAt place = oam'.byteAt place) :
    oam = oam' := by
  refine Vector.ext fun i hi => ?_
  have hplace : (UInt8.ofNat i).toNat = i := UInt8.toNat_ofNat_of_lt' hi
  have hbyte := h (UInt8.ofNat i)
  simpa [byteAt, Vector.get, hplace] using hbyte

end ObjectMemory

namespace Ppu

def objects (p : Ppu) : ObjectMemory × UInt8 := (p.oam, p.oamAddress)

theorem byteAt_writeObject (data : UInt8) (p : Ppu) (place : UInt8) :
    (p.writeObject data).oam.byteAt place =
      if place = p.oamAddress then data else p.oam.byteAt place := by
  have hcell : (p.writeObject data).oam.byteAt place =
      if p.oamAddress.toNat = place.toNat then data else p.oam.byteAt place :=
    Vector.getElem_set p.oamAddress.toNat_lt place.toNat_lt
  simp only [hcell, UInt8.toNat_inj, eq_comm]

theorem byteAt_writeObjects (block : ObjectMemory) (p : Ppu) (place : UInt8) :
    (p.writeObjects block).oam.byteAt place = block.byteAt (place - p.oamAddress) := by
  have hplace : UInt8.ofNat place.toNat = place := UInt8.ofNat_toNat
  have hcell : (p.writeObjects block).oam.byteAt place =
      block.byteAt (UInt8.ofNat place.toNat - p.oamAddress) :=
    Vector.getElem_ofFn place.toNat_lt
  rw [hcell, hplace]

theorem oamAddress_writeObjects (block : ObjectMemory) (p : Ppu) :
    (p.writeObjects block).oamAddress = p.oamAddress := by
  rw [writeObjects]

def writeEach (bytes : List UInt8) (p : Ppu) : Ppu :=
  bytes.foldl (fun p data => writeObject data { p with latch := data }) p

theorem oamAddress_writeEach (bytes : List UInt8) (p : Ppu) :
    (p.writeEach bytes).oamAddress = p.oamAddress + UInt8.ofNat bytes.length := by
  induction bytes generalizing p with
  | nil => exact (UInt8.add_zero _).symm
  | cons data bytes ih =>
    have hrest : (p.writeEach (data :: bytes)).oamAddress =
        p.oamAddress + 1 + UInt8.ofNat bytes.length := ih _
    rw [hrest, List.length_cons, Nat.add_comm, UInt8.ofNat_add, UInt8.add_assoc]
    rfl

/-- As many bytes as fit are put in turn, around the end of object memory. -/
theorem byteAt_writeEach {bytes : List UInt8} (h : bytes.length ≤ 256) (p : Ppu) (place : UInt8) :
    (p.writeEach bytes).oam.byteAt place =
      (bytes[(place - p.oamAddress).toNat]?).getD (p.oam.byteAt place) := by
  induction bytes generalizing p with
  | nil => rfl
  | cons data bytes ih =>
    rw [List.length_cons] at h
    have hrest : (p.writeEach (data :: bytes)).oam.byteAt place =
        (bytes[(place - (p.oamAddress + 1)).toNat]?).getD
          (if place = p.oamAddress then data else p.oam.byteAt place) := by
      rw [← byteAt_writeObject data { p with latch := data }]
      exact ih (by omega) _
    rw [hrest]
    by_cases hplace : place = p.oamAddress
    · -- The rest comes back here after a whole round at the earliest.
      have hlast : (p.oamAddress - (p.oamAddress + 1)).toNat = 255 := by
        rw [show p.oamAddress - (p.oamAddress + 1) = 255 by grind]
        rfl
      rw [if_pos hplace, hplace, hlast, List.getElem?_eq_none (by omega), UInt8.sub_self]
      rfl
    · have hnext : (place - p.oamAddress).toNat = (place - (p.oamAddress + 1)).toNat + 1 := by
        have hpos : (place - p.oamAddress).toNat ≠ 0 := fun hzero => by
          have hsame : place - p.oamAddress = 0 := UInt8.toNat_inj.1 hzero
          exact hplace (by grind)
        have hone : 1 ≤ place - p.oamAddress :=
          UInt8.le_iff_toNat_le.2 (Nat.one_le_iff_ne_zero.2 hpos)
        rw [show place - (p.oamAddress + 1) = place - p.oamAddress - 1 by grind,
          UInt8.toNat_sub_of_le _ _ hone]
        exact (Nat.succ_pred hpos).symm
      rw [if_neg hplace, hnext, List.getElem?_cons_succ]

theorem oam_writeObjects {bytes : List UInt8} (h : bytes.length = 256) (p : Ppu) :
    (p.writeObjects (Vector.ofFn fun i => bytes.toArray.getD i.val 0)).oam =
      (p.writeEach bytes).oam := by
  refine ObjectMemory.ext_byteAt fun place => ?_
  have hlt : (place - p.oamAddress).toNat < bytes.length := h ▸ (place - p.oamAddress).toNat_lt
  have hblock : (ObjectMemory.byteAt (Vector.ofFn fun i => bytes.toArray.getD i.val 0)
      (place - p.oamAddress)) = bytes.toArray.getD (place - p.oamAddress).toNat 0 :=
    Vector.getElem_ofFn (place - p.oamAddress).toNat_lt
  rw [byteAt_writeObjects, hblock, byteAt_writeEach (Nat.le_of_eq h)]
  simp [hlt]

/-- A page that is copied lies as its bytes would that are written in turn, and after a whole round
their address is where it was. -/
theorem objects_writeObjects {bytes : List UInt8} (h : bytes.length = 256) (p : Ppu) :
    (p.writeObjects (Vector.ofFn fun i => bytes.toArray.getD i.val 0)).objects =
      (p.writeEach bytes).objects := by
  refine Prod.ext (oam_writeObjects h p) ?_
  simp only [objects]
  rw [oamAddress_writeObjects, oamAddress_writeEach, h]
  exact (UInt8.add_zero _).symm

end Ppu

namespace MainBus

/-! ### Reads of a page -/

def readPage (page : UInt8) : EStateM BusError MainBus (List UInt8) :=
  (List.range 256).mapM fun k => MainBus.read (UInt16.ofNat (page.toNat * 256 + k))

def objectData : UInt16 := 0x2004

theorem readBlock_eq_mapM (n : Nat) (address : UInt16) : readBlock address n =
    (List.range n).mapM fun k => MainBus.read (address + UInt16.ofNat k) := by
  induction n generalizing address with
  | zero => rfl
  | succ n ih =>
    have hplace (k : Nat) : address + 1 + UInt16.ofNat k = address + UInt16.ofNat (k + 1) := by
      rw [UInt16.add_assoc, Nat.add_comm, UInt16.ofNat_add]
      rfl
    rw [readBlock, ih, List.range_succ_eq_map, List.mapM_cons, List.mapM_map]
    simp only [hplace]
    rw [show address + UInt16.ofNat 0 = address from UInt16.add_zero address]
    rfl

theorem readBlock_eq_readPage (page : UInt8) : readBlock (wordOf 0 page) 256 = readPage page := by
  have hplace (k : Nat) : wordOf 0 page + UInt16.ofNat k =
      UInt16.ofNat (page.toNat * 256 + k) := by
    rw [wordOf, UInt8.toNat_zero, Nat.add_zero, UInt16.ofNat_add]
  rw [readBlock_eq_mapM, readPage]
  simp only [hplace]

theorem length_of_readBlock {n : Nat} {address : UInt16} {b b' : MainBus} {bytes : List UInt8}
    (h : readBlock address n b = .ok bytes b') : bytes.length = n := by
  induction n generalizing address b bytes with
  | zero =>
    cases h
    rfl
  | succ n ih =>
    obtain ⟨byte, b₁, -, hrest⟩ := of_bind_ok h
    obtain ⟨rest, b₂, hblock, hend⟩ := of_bind_ok hrest
    cases hend
    exact congrArg (· + 1) (ih hblock)

theorem keeps_objects (o : ObjectMemory × UInt8) (address : UInt16) :
    Keeps (fun b => b.picture.objects = o) (MainBus.read address) := by
  intro b hb
  have hregister : KeepsView Ppu.objects (β := VideoBus) (Ppu.readRegister address) :=
    Ppu.keepsView_readRegister (fun _ _ => rfl) (fun _ _ => rfl) fun _ _ => rfl
  have hpicture := goes_onPicture (P := fun p => p.objects = o) (Q := fun p => p.objects = o)
    (hregister o) b hb
  unfold MainBus.read
  cases mainMap.owner? address with
  | none => exact hb
  | some device =>
    cases device with
    | picture => exact hpicture
    | ram | ramAgain | peripherals => exact hb
    | cartridge =>
      dsimp only
      cases b.video.cartridge.read? address <;> exact hb

theorem objects_readBlock (n : Nat) (address : UInt16) (b : MainBus) :
    (stateAfter (readBlock address n) b).picture.objects = b.picture.objects :=
  Keeps.stateAfter (leads_block (keeps_objects b.picture.objects) n address) rfl

/-- A report before the block is no more than a report. -/
theorem readBlock_note {b : MainBus} (hb : b.Whole) (es : List Event) (n : Nat)
    (address : UInt16) : readBlock address n (b.note es) = match readBlock address n b with
      | .ok bytes b' => .ok bytes (b'.note es)
      | .error e b' => .error e (b'.note es) := by
  have hvideo {c : MainBus} (hc : c.Whole) :
      Keeps (fun d => d.video = c.video) (readBlock address n) := leads_block (keeps_video hc) n _
  have hplain := hvideo hb b rfl
  have hnoted := hvideo (c := b.note es) hb (b.note es) rfl
  have hsame := agree_readBlock n address b (b.note es) ⟨⟨_, rfl⟩, hb⟩
  -- Both runs leave the journal that they find.
  have hend {c d : MainBus} (h : c.Twins d) (hc : c.video = b.video)
      (hd : d.video = b.video.note es) : d = c.note es := by
    obtain ⟨⟨journal, rfl⟩, -⟩ := h
    rw [← hc] at hd
    exact congrArg (fun v => { c with video := v }) hd
  cases hx : readBlock address n b <;> cases hy : readBlock address n (b.note es) <;>
    rw [hx, hy] at hsame <;> rw [hx] at hplain <;> rw [hy] at hnoted
  case ok.ok => exact hend hsame.2 hplain hnoted ▸ hsame.1 ▸ rfl
  case error.error => exact hend hsame.2 hplain hnoted ▸ hsame.1 ▸ rfl
  all_goals exact hsame.elim

/-! ### Transfers -/

theorem write_objectData (data : UInt8) (b : MainBus) : MainBus.write objectData data b =
    .ok () { b with picture := Ppu.writeObject data { b.picture with latch := data } } := rfl

theorem forM_objectData (bytes : List UInt8) (b : MainBus) :
    bytes.forM (MainBus.write objectData) b =
      .ok () { b with picture := b.picture.writeEach bytes } := by
  induction bytes generalizing b with
  | nil => rfl
  | cons data bytes ih => exact (bind_ok (write_objectData data b)).trans (ih _)

/-- From `b` to `b'` the page was copied. Its bytes, read in turn, leave the bus as `read`. Object
memory and its address are as after as many writes to the data register, so that each byte of the
page takes one place, from the object address on. All else is as the reads leave it, but for a
report. -/
structure Copied (page : UInt8) (bytes : List UInt8) (b read b' : MainBus) : Prop where
  bytes_read : readPage page b = .ok bytes read
  length : bytes.length = 256
  written : ∃ written, bytes.forM (MainBus.write objectData) read = .ok () written ∧
    b'.picture.objects = written.picture.objects
  placed (k : Nat) (hk : k < bytes.length) :
    b'.picture.oam.byteAt (b.picture.oamAddress + UInt8.ofNat k) = bytes[k]
  beside : b' = note [.objectTransfer (wordOf 0 page)]
    { read with picture := { read.picture with oam := b'.picture.oam } }

section
variable {b : MainBus} {page : UInt8}

theorem transferObjects_eq (hb : b.Whole) (page : UInt8) :
    transferObjects page b = match readBlock (wordOf 0 page) 256 b with
      | .ok bytes c => .ok () (note [.objectTransfer (wordOf 0 page)] { c with
          picture := c.picture.writeObjects (Vector.ofFn fun i => bytes.toArray.getD i.val 0) })
      | .error e c => .error e (note [.objectTransfer (wordOf 0 page)] c) := by
  have hnote := readBlock_note hb [.objectTransfer (wordOf 0 page)] 256 (wordOf 0 page)
  cases hread : readBlock (wordOf 0 page) 256 b <;> rw [hread] at hnote
  case ok bytes c => exact (bind_ok rfl).trans (bind_ok hnote)
  case error e c => exact (bind_ok rfl).trans (bind_error hnote)

/-- Any page but one is copied. -/
theorem transferObjects_copies (hb : b.Whole) (hpage : page ≠ 0x40) :
    ∃ bytes read b', transferObjects page b = .ok () b' ∧ Copied page bytes b read b' := by
  have heq := transferObjects_eq hb page
  have hends := leads_transferObjects page b hb
  have hobjects := objects_readBlock 256 (wordOf 0 page) b
  rw [stateAfter] at hobjects
  cases hread : readBlock (wordOf 0 page) 256 b <;> rw [hread] at heq hobjects <;>
    rw [heq] at hends
  case error => exact absurd hends.2.1 hpage
  case ok bytes c =>
    have hobjects : c.picture.objects = b.picture.objects := hobjects
    have hlength := length_of_readBlock hread
    have hwritten := Ppu.objects_writeObjects hlength c.picture
    have hoam := Ppu.oam_writeObjects hlength c.picture
    rw [readBlock_eq_readPage] at hread
    dsimp only at heq
    -- The block is only known by what it leaves, lest its 256 bytes are looked at.
    generalize (Vector.ofFn fun i : Fin 256 => bytes.toArray.getD i.val 0) = block
      at heq hwritten hoam
    refine ⟨bytes, c, _, heq, hread, hlength, ⟨_, forM_objectData bytes c, hwritten⟩,
      fun k hk => ?_, rfl⟩
    have hplace : (b.picture.oamAddress + UInt8.ofNat k - c.picture.oamAddress).toNat = k := by
      have hsame : c.picture.oamAddress = b.picture.oamAddress := congrArg Prod.snd hobjects
      rw [hsame, show b.picture.oamAddress + UInt8.ofNat k - b.picture.oamAddress = UInt8.ofNat k
        by grind]
      exact UInt8.toNat_ofNat_of_lt' (Nat.lt_of_lt_of_eq hk hlength)
    have hbyte := Ppu.byteAt_writeEach (Nat.le_of_eq hlength) c.picture
      (b.picture.oamAddress + UInt8.ofNat k)
    rw [hplace, List.getElem?_eq_getElem hk] at hbyte
    exact (congrArg (ObjectMemory.byteAt · _) hoam).trans hbyte

/-- The other is refused before anything is put. -/
theorem transferObjects_refused (hb : b.Whole) (hpage : page = 0x40) :
    ∃ b', transferObjects page b = .error (.unmapped 0x4018) b' ∧
      b'.picture.objects = b.picture.objects := by
  have heq := transferObjects_eq hb page
  have hends := leads_transferObjects page b hb
  have hobjects := objects_readBlock 256 (wordOf 0 page) b
  rw [stateAfter] at hobjects
  cases hread : readBlock (wordOf 0 page) 256 b <;> rw [hread] at heq hobjects <;>
    rw [heq] at hends
  case ok => exact absurd hpage hends.2
  case error e c =>
    obtain ⟨-, -, rfl⟩ := hends
    exact ⟨_, heq, hobjects⟩

end
end MainBus
end NesConsole
